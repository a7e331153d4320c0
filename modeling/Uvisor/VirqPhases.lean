import Uvisor.LastWrite
import Uvisor.VirqOwnership

/-!
# Phases with all interrupts disabled

A box disables all its interrupts for a phase and enables them again. What the
phase leaves of one interrupt is determined by the calls that have been made:
a call that enables it counts wherever it stands, a call that disables it
counts only outside of a phase, and another box that starts a phase of its own
switches it off.
-/

namespace Uvisor.VirqPhases

open Virq VirqOwnership LastWrite Execution

/-! ## What one interrupt sees of the calls -/

/-- A call as one interrupt of a box sees it. -/
inductive Event where
  /-- Its box enables it. -/
  | enabled
  /-- Its box disables it outside of a phase. -/
  | disabled
  /-- Its box disables it in a phase. -/
  | disabledInPhase
  /-- Another box starts a phase while its box is in one. -/
  | overlapped
  /-- Anything else. -/
  | other
  deriving DecidableEq

/-- The nested phases of a box after a call of that box. -/
def depthAfter (depth : ℕ) : Call → ℕ
  | .irqDisableAll => depth+1
  | .irqEnableAll => depth-1
  | _ => depth

/-- The nested phases of all boxes after a call. -/
def depthsAfter (depths : ℕ → ℕ) (box : ℕ) (c : Call) : ℕ → ℕ :=
  Function.update depths box (depthAfter (depths box) c)

/-- What an interrupt sees of a call. -/
def eventOf (owner irqn : ℕ) (depths : ℕ → ℕ) (box : ℕ) : Call → Event
  | .irqEnable i => if box = owner ∧ i = irqn then .enabled else .other
  | .irqDisable i =>
    if box = owner ∧ i = irqn then if depths owner = 0 then .disabled else .disabledInPhase
    else .other
  | .irqDisableAll =>
    if box ≠ owner ∧ depths box = 0 ∧ depths owner ≠ 0 then .overlapped else .other
  | _ => .other

/-- What it sees of a list of calls. -/
def events (owner irqn : ℕ) : (ℕ → ℕ) → List (ℕ × Call) → List Event
  | _, [] => []
  | depths, (box, c) :: calls =>
    eventOf owner irqn depths box c :: events owner irqn (depthsAfter depths box c) calls

/-- What the code makes of the events. -/
def actual : Event → Option Bool
  | .enabled => some true
  | .disabled | .overlapped => some false
  | .disabledInPhase | .other => none

/-- What the calls ask for, each taken by itself. -/
def asked : Event → Option Bool
  | .enabled => some true
  | .disabled | .disabledInPhase | .overlapped => some false
  | .other => none

/-- What the code makes of the calls of the box alone. -/
def alone : Event → Option Bool
  | .enabled => some true
  | .disabled => some false
  | .disabledInPhase | .overlapped | .other => none

/-! ## One call -/

section Calls

variable {sys : Platform} {s t : Virq.State} {owner irqn box : ℕ} {c : Call} {bit : Bool}

/-- Enable bit and remembered state of the interrupt after a call on it. -/
def bitsAfter (s : Virq.State) (irqn : ℕ) : Call → Bool × Bool
  | .irqEnable _ =>
    if s.counter s.activeBox = 0 then (true, (s.vectors irqn).wasEnabled)
    else (s.nvic.enabled irqn, true)
  | .irqDisable _ => (false, (s.vectors irqn).wasEnabled)
  | _ => (s.nvic.enabled irqn, (s.vectors irqn).wasEnabled)

/-- A call on one interrupt changes no other. -/
structure OnlyBits (c : Call) (irqn : ℕ) (s t : Virq.State) : Prop where
  /-- No phase starts or ends. -/
  counter : t.counter = s.counter
  /-- The bits of the interrupt. -/
  own : (t.nvic.enabled irqn, (t.vectors irqn).wasEnabled) = bitsAfter s irqn c
  /-- The bits of all others. -/
  others : ∀ i, i ≠ irqn → t.nvic.enabled i = s.nvic.enabled i ∧
    (t.vectors i).wasEnabled = (s.vectors i).wasEnabled

/-- Changes of the vector of one interrupt that leave its state alone. -/
theorem update_wasEnabled {u : Virq.State} {vector : Vector}
    (h : vector.wasEnabled = (u.vectors irqn).wasEnabled) (i : ℕ) :
    (Function.update u.vectors irqn vector i).wasEnabled = (u.vectors i).wasEnabled := by
  by_cases hi : i = irqn
  · subst hi
    rw [Function.update_self, h]
  · rw [Function.update_of_ne hi]

/-- Taking an interrupt changes no bits. -/
theorem register_bits (h : virqIsrRegister sys irqn s = some t) :
    t.counter = s.counter ∧ t.activeBox = s.activeBox ∧ t.nvic = s.nvic ∧
      ∀ i, (t.vectors i).wasEnabled = (s.vectors i).wasEnabled := by
  obtain ⟨-, -, rfl⟩ := register_some h
  exact ⟨rfl, rfl, rfl, update_wasEnabled rfl⟩

/-- Calls that leave the bits alone. -/
theorem OnlyBits.ofSame {u : Virq.State} (h : virqIsrRegister sys irqn s = some u)
    (hbits : bitsAfter s irqn c = (s.nvic.enabled irqn, (s.vectors irqn).wasEnabled))
    (hcounter : t.counter = u.counter) (henabled : t.nvic.enabled = u.nvic.enabled)
    (hwas : ∀ i, (t.vectors i).wasEnabled = (u.vectors i).wasEnabled) : OnlyBits c irqn s t := by
  obtain ⟨hcounter', -, hnvic, hwas'⟩ := register_bits h
  have hsame : ∀ i, t.nvic.enabled i = s.nvic.enabled i ∧
      (t.vectors i).wasEnabled = (s.vectors i).wasEnabled := fun i =>
    ⟨by rw [henabled, hnvic], (hwas i).trans (hwas' i)⟩
  refine ⟨hcounter.trans hcounter', ?_, fun i _ => hsame i⟩
  rw [hbits, (hsame irqn).1, (hsame irqn).2]

theorem onlyBits (hc : c.irqn = some irqn) (h : call sys s c = some t) : OnlyBits c irqn s t := by
  cases c with
  | irqDisableAll => cases hc
  | irqEnableAll => cases hc
  | isrSet i vector =>
    obtain rfl := Option.some.inj hc
    obtain ⟨u, hu, rfl⟩ := Option.map_eq_some_iff.mp h
    exact .ofSame hu rfl rfl rfl (update_wasEnabled rfl)
  | isrGet i | irqPendingGet i | irqPriorityGet i =>
    obtain rfl := Option.some.inj hc
    obtain ⟨out, hout, rfl⟩ := Option.map_eq_some_iff.mp h
    obtain ⟨u, hu, rfl⟩ := Option.map_eq_some_iff.mp hout
    exact .ofSame hu rfl rfl rfl fun _ => rfl
  | irqEnable i =>
    obtain rfl := Option.some.inj hc
    obtain ⟨u, hu, heq⟩ := Option.map_eq_some_iff.mp h
    obtain ⟨hcounter, hactive, hnvic, hwas⟩ := register_bits hu
    have hphase : u.counter u.activeBox = s.counter s.activeBox := by rw [hcounter, hactive]
    dsimp only at heq
    by_cases hzero : s.counter s.activeBox = 0
    · rw [if_pos (hphase.trans hzero)] at heq
      subst heq
      refine ⟨hcounter, ?_, fun j hj => ⟨?_, hwas j⟩⟩
      · simp only [bitsAfter, if_pos hzero, nvicEnableIrq, Function.update_self, hwas i]
      · simp only [nvicEnableIrq, Function.update_of_ne hj, hnvic]
    · rw [if_neg (hphase ▸ hzero)] at heq
      subst heq
      refine ⟨hcounter, ?_, fun j hj => ⟨by rw [hnvic], ?_⟩⟩
      · simp only [bitsAfter, if_neg hzero, Function.update_self, hnvic]
      · simp only [Function.update_of_ne hj, hwas j]
  | irqDisable i =>
    obtain rfl := Option.some.inj hc
    obtain ⟨u, hu, rfl⟩ := Option.map_eq_some_iff.mp h
    obtain ⟨hcounter, hactive, hnvic, hwas⟩ := register_bits hu
    refine ⟨hcounter, ?_, fun j hj => ⟨?_, hwas j⟩⟩
    · simp only [bitsAfter, nvicDisableIrq, Function.update_self, hwas i]
    · simp only [nvicDisableIrq, Function.update_of_ne hj, hnvic]
  | irqPendingClr i | irqPendingSet i =>
    obtain rfl := Option.some.inj hc
    obtain ⟨u, hu, rfl⟩ := Option.map_eq_some_iff.mp h
    exact .ofSame hu rfl rfl rfl fun _ => rfl
  | irqPrioritySet i priority =>
    obtain rfl := Option.some.inj hc
    obtain ⟨u, hu, h⟩ := Option.bind_eq_some_iff.mp h
    split at h
    · cases h
    · obtain rfl := Option.some.inj h
      exact .ofSame hu rfl rfl rfl fun _ => rfl

/-- The calls change the phases as counted. -/
theorem counter_after (h : boxCall sys s box c = some t) :
    t.counter = depthsAfter s.counter box c := by
  by_cases hall : c.irqn = none
  · cases c with
    | irqDisableAll => rw [virqIrqDisableAll_some h]; rfl
    | irqEnableAll =>
      obtain rfl := Option.some.inj h
      rw [virqIrqEnableAll_eq]
      rfl
    | _ => cases hall
  · obtain ⟨i, hi⟩ := Option.ne_none_iff_exists'.mp hall
    have hsame : depthAfter (s.counter box) c = s.counter box := by
      cases c with
      | irqDisableAll => exact absurd rfl hall
      | irqEnableAll => exact absurd rfl hall
      | _ => rfl
    rw [(onlyBits hi h).counter, depthsAfter, hsame, Function.update_eq_self]

/-! ## The state of one interrupt -/

/-- An interrupt is on or off. In a phase of its box it is disabled, and its
state is remembered. -/
structure Seen (owner irqn : ℕ) (bit : Bool) (s : Virq.State) : Prop where
  /-- The box owns the interrupt. -/
  owned : (s.vectors irqn).id = owner
  /-- Outside of phases the interrupt controller has its state. -/
  outside : s.counter owner = 0 → s.nvic.enabled irqn = bit
  /-- In a phase the vector table has. -/
  inside : s.counter owner ≠ 0 → s.nvic.enabled irqn = false ∧ (s.vectors irqn).wasEnabled = bit

/-- The owner stays the same. -/
theorem Seen.owner_call (h : Seen owner irqn bit s) (howner : owner ≠ boxIdInvalid)
    (hs : boxCall sys s box c = some t) : (t.vectors irqn).id = owner := by
  have heffect := call_effect hs
  by_cases hc : c.irqn = some irqn
  · obtain ⟨-, hfree, htaken⟩ := heffect.taken irqn hc
    rcases hfree with hfree | hself
    · exact absurd (h.owned.symm.trans hfree) howner
    · exact htaken.trans (hself.symm.trans h.owned)
  · exact (heffect.kept irqn hc).trans h.owned

/-- A call on the interrupt is one of its owner. -/
theorem Seen.caller (h : Seen owner irqn bit s) (howner : owner ≠ boxIdInvalid)
    (hc : c.irqn = some irqn) (hs : boxCall sys s box c = some t) : box = owner := by
  obtain ⟨-, hfree | hself, -⟩ := (call_effect hs).taken irqn hc
  · exact absurd (h.owned.symm.trans hfree) howner
  · exact hself.symm.trans h.owned

/-- A call on one interrupt. -/
theorem Seen.single (h : Seen owner irqn bit s) (howner : owner ≠ boxIdInvalid) {i : ℕ}
    (hc : c.irqn = some i) (hs : boxCall sys s box c = some t) :
    Seen owner irqn ((actual (eventOf owner irqn s.counter box c)).getD bit) t := by
  have hkept := h.owner_call howner hs
  have hbits := onlyBits hc hs
  have hcounter : t.counter = s.counter := hbits.counter
  by_cases hi : i = irqn
  · subst hi
    obtain rfl := h.caller howner hc hs
    have hown := hbits.own
    by_cases hzero : s.counter box = 0
    · have hold := h.outside hzero
      refine ⟨hkept, fun _ => ?_, fun hphase => absurd (hcounter ▸ hzero) hphase⟩
      have henabled := congrArg Prod.fst hown
      dsimp only at henabled
      rw [henabled]
      cases c with
      | irqEnable j =>
        obtain rfl := Option.some.inj hc
        simp [bitsAfter, hzero, eventOf, actual]
      | irqDisable j =>
        obtain rfl := Option.some.inj hc
        simp [bitsAfter, hzero, eventOf, actual]
      | irqDisableAll => cases hc
      | irqEnableAll => cases hc
      | _ => exact hold
    · obtain ⟨hoff, hwas⟩ := h.inside hzero
      refine ⟨hkept, fun hphase => absurd (hcounter ▸ hphase) hzero, fun _ => ?_⟩
      have henabled := congrArg Prod.fst hown
      have hstate := congrArg Prod.snd hown
      dsimp only at henabled hstate
      rw [henabled, hstate]
      cases c with
      | irqEnable j =>
        obtain rfl := Option.some.inj hc
        simp [bitsAfter, hzero, eventOf, actual, hoff]
      | irqDisable j =>
        obtain rfl := Option.some.inj hc
        simp [bitsAfter, hzero, eventOf, actual, hwas]
      | irqDisableAll => cases hc
      | irqEnableAll => cases hc
      | _ => exact ⟨hoff, hwas⟩
  · obtain ⟨henabled, hwas⟩ := hbits.others irqn (Ne.symm hi)
    have hevent : actual (eventOf owner irqn s.counter box c) = none := by
      cases c with
      | irqEnable j =>
        obtain rfl := Option.some.inj hc
        simp [eventOf, hi, actual]
      | irqDisable j =>
        obtain rfl := Option.some.inj hc
        simp [eventOf, hi, actual]
      | irqDisableAll => cases hc
      | irqEnableAll => cases hc
      | _ => rfl
    rw [hevent, Option.getD_none]
    exact ⟨hkept, fun hzero => henabled.trans (h.outside (hcounter ▸ hzero)),
      fun hphase => ⟨henabled.trans (h.inside (hcounter ▸ hphase)).1,
        hwas.trans (h.inside (hcounter ▸ hphase)).2⟩⟩

/-- The bits of an interrupt at the start of a phase of some box. -/
theorem disableAll_bits (hlt : irqn < sys.nvicVectors)
    (hs : boxCall sys s box .irqDisableAll = some t) :
    (s.counter box = 0 →
      t.nvic.enabled irqn = (s.nvic.enabled irqn && !decide ((s.vectors irqn).id = box)) ∧
      (t.vectors irqn).wasEnabled =
        (decide ((s.vectors irqn).id = box) && s.nvic.enabled irqn)) ∧
    (s.counter box ≠ 0 → t.nvic.enabled irqn = s.nvic.enabled irqn ∧
      (t.vectors irqn).wasEnabled = (s.vectors irqn).wasEnabled) := by
  obtain rfl := virqIrqDisableAll_some hs
  refine ⟨fun hzero => ?_, fun hnested => ?_⟩
  · simp only [phaseStarted, if_pos hzero, allDisabled, if_pos hlt, remembered, and_self]
  · simp only [phaseStarted, if_neg hnested, and_self]

/-- The bits at the end. -/
theorem enableAll_bits (hlt : irqn < sys.nvicVectors)
    (hs : boxCall sys s box .irqEnableAll = some t) :
    (s.counter box = 1 → t.nvic.enabled irqn = (s.nvic.enabled irqn ||
        (decide ((s.vectors irqn).id = box) && (s.vectors irqn).wasEnabled)) ∧
      ((s.vectors irqn).id ≠ box → (t.vectors irqn).wasEnabled = (s.vectors irqn).wasEnabled)) ∧
    (s.counter box ≠ 1 → t.nvic.enabled irqn = s.nvic.enabled irqn ∧
      (t.vectors irqn).wasEnabled = (s.vectors irqn).wasEnabled) := by
  obtain rfl := Option.some.inj hs
  rw [virqIrqEnableAll_eq]
  refine ⟨fun hone => ?_, fun hnested => ?_⟩
  · simp only [phaseEnded, if_pos hone, allEnabled, if_pos hlt, restored, true_and]
    intro hid
    simp [hid]
  · simp only [phaseEnded, if_neg hnested, and_self]

/-- A call that disables all interrupts of a box. -/
theorem Seen.disableAll (h : Seen owner irqn bit s) (howner : owner ≠ boxIdInvalid)
    (hlt : irqn < sys.nvicVectors) (hs : boxCall sys s box .irqDisableAll = some t) :
    Seen owner irqn ((actual (eventOf owner irqn s.counter box .irqDisableAll)).getD bit) t := by
  have hkept := h.owner_call howner hs
  have hcounter := congrFun (counter_after hs) owner
  obtain ⟨hfirst, hnested⟩ := disableAll_bits hlt hs
  by_cases hbox : box = owner
  · subst hbox
    have hevent : actual (eventOf box irqn s.counter box .irqDisableAll) = none := by
      simp [eventOf, actual]
    have hdepth : t.counter box = s.counter box+1 := by
      rw [hcounter, depthsAfter, Function.update_self]
      rfl
    rw [hevent, Option.getD_none]
    refine ⟨hkept, fun hzero => absurd (hdepth.symm.trans hzero) (Nat.succ_ne_zero _), fun _ => ?_⟩
    by_cases hzero : s.counter box = 0
    · -- The first of nested calls remembers the state.
      obtain ⟨henabled, hwas⟩ := hfirst hzero
      rw [henabled, hwas, h.owned, h.outside hzero]
      simp
    · obtain ⟨henabled, hwas⟩ := hnested hzero
      rw [henabled, hwas]
      exact h.inside hzero
  · have hother : t.counter owner = s.counter owner := by
      rw [hcounter, depthsAfter, Function.update_of_ne (Ne.symm hbox)]
    have hid : ¬(s.vectors irqn).id = box := fun heq => hbox (heq.symm.trans h.owned)
    by_cases hoverlap : s.counter box = 0 ∧ s.counter owner ≠ 0
    · -- The state that the owner has saved is overwritten.
      have hevent : actual (eventOf owner irqn s.counter box .irqDisableAll) = some false := by
        simp [eventOf, hbox, hoverlap.1, hoverlap.2, actual]
      obtain ⟨henabled, hwas⟩ := hfirst hoverlap.1
      rw [hevent, Option.getD_some]
      refine ⟨hkept, fun hout => absurd (hother.symm.trans hout) hoverlap.2, fun _ => ?_⟩
      rw [henabled, hwas, (h.inside hoverlap.2).1]
      simp [hid]
    · have hevent : actual (eventOf owner irqn s.counter box .irqDisableAll) = none := by
        simp [eventOf, hbox, hoverlap, actual]
      rw [hevent, Option.getD_none]
      refine ⟨hkept, fun hout => ?_, fun hin => ?_⟩
      · have hold := h.outside (hother.symm.trans hout)
        by_cases hzero : s.counter box = 0
        · rw [(hfirst hzero).1, hold]
          simp [hid]
        · exact (hnested hzero).1.trans hold
      · have hphase : s.counter owner ≠ 0 := fun heq => hin (hother.trans heq)
        have hzero : s.counter box ≠ 0 := fun heq => hoverlap ⟨heq, hphase⟩
        obtain ⟨henabled, hwas⟩ := hnested hzero
        rw [henabled, hwas]
        exact h.inside hphase

/-- A call that enables all interrupts of a box again. -/
theorem Seen.enableAll (h : Seen owner irqn bit s) (howner : owner ≠ boxIdInvalid)
    (hlt : irqn < sys.nvicVectors) (hs : boxCall sys s box .irqEnableAll = some t) :
    Seen owner irqn bit t := by
  have hkept := h.owner_call howner hs
  have hcounter := congrFun (counter_after hs) owner
  obtain ⟨hlast, hnested⟩ := enableAll_bits hlt hs
  by_cases hbox : box = owner
  · subst hbox
    have hdepth : t.counter box = s.counter box-1 := by
      rw [hcounter, depthsAfter, Function.update_self]
      rfl
    by_cases hone : s.counter box = 1
    · -- The last of nested calls brings the state back.
      obtain ⟨hoff, hwas⟩ := h.inside (by omega)
      refine ⟨hkept, fun _ => ?_, fun hin => absurd (by omega) hin⟩
      rw [(hlast hone).1, h.owned, hoff, hwas]
      simp
    · obtain ⟨henabled, hwas⟩ := hnested hone
      refine ⟨hkept, fun hzero => henabled.trans (h.outside (by omega)), fun hin => ?_⟩
      obtain ⟨hoff, hstate⟩ := h.inside (by omega)
      exact ⟨henabled.trans hoff, hwas.trans hstate⟩
  · have hother : t.counter owner = s.counter owner := by
      rw [hcounter, depthsAfter, Function.update_of_ne (Ne.symm hbox)]
    have hid : ¬(s.vectors irqn).id = box := fun heq => hbox (heq.symm.trans h.owned)
    have hsame : t.nvic.enabled irqn = s.nvic.enabled irqn ∧
        (t.vectors irqn).wasEnabled = (s.vectors irqn).wasEnabled := by
      by_cases hone : s.counter box = 1
      · refine ⟨?_, (hlast hone).2 hid⟩
        rw [(hlast hone).1]
        simp [hid]
      · exact hnested hone
    exact ⟨hkept, fun hzero => hsame.1.trans (h.outside (hother.symm.trans hzero)),
      fun hin => ⟨hsame.1.trans (h.inside (hother ▸ hin)).1,
        hsame.2.trans (h.inside (hother ▸ hin)).2⟩⟩

/-- Every call. -/
theorem Seen.call (h : Seen owner irqn bit s) (howner : owner ≠ boxIdInvalid)
    (hlt : irqn < sys.nvicVectors) (hs : boxCall sys s box c = some t) :
    Seen owner irqn ((actual (eventOf owner irqn s.counter box c)).getD bit) t := by
  cases hc : c.irqn with
  | some i => exact h.single howner hc hs
  | none =>
    cases c with
    | irqDisableAll => exact h.disableAll howner hlt hs
    | irqEnableAll => exact h.enableAll howner hlt hs
    | _ => cases hc

end Calls

/-! ## Runs -/

section Runs

variable {sys : Platform} {s t t' : Virq.State} {owner irqn box : ℕ}

/-- A list of calls of boxes. -/
def runCalls (sys : Platform) : List (ℕ × Call) → Virq.State → Option Virq.State :=
  exec fun s (box, c) => boxCall sys s box c

/-- The state of an interrupt follows the events. -/
theorem Seen.run {bit : Bool} (h : Seen owner irqn bit s) (howner : owner ≠ boxIdInvalid)
    (hlt : irqn < sys.nvicVectors) {calls : List (ℕ × Call)} (hs : runCalls sys calls s = some t) :
    Seen owner irqn (written actual bit (events owner irqn s.counter calls)) t := by
  induction calls generalizing s bit with
  | nil =>
    obtain rfl := Option.some.inj hs
    exact h
  | cons p calls ih =>
    obtain ⟨box, c⟩ := p
    obtain ⟨u, hu, hrest⟩ := Option.bind_eq_some_iff.mp hs
    have hseen := ih (h.call howner hlt hu) hrest
    rwa [counter_after hu] at hseen

/-- The phases of a box follow its own calls. -/
theorem counter_run {calls : List (ℕ × Call)} (hs : runCalls sys calls s = some t) :
    t.counter owner = (calls.filter fun p => p.1 = owner).foldl
      (fun depth p => depthAfter depth p.2) (s.counter owner) := by
  induction calls generalizing s with
  | nil =>
    obtain rfl := Option.some.inj hs
    rfl
  | cons p calls ih =>
    obtain ⟨box, c⟩ := p
    obtain ⟨u, hu, hrest⟩ := Option.bind_eq_some_iff.mp hs
    rw [ih hrest, counter_after hu]
    by_cases hbox : box = owner
    · subst hbox
      rw [List.filter_cons_of_pos (by simp), List.foldl_cons, depthsAfter, Function.update_self]
    · rw [List.filter_cons_of_neg (by simpa using hbox), depthsAfter,
        Function.update_of_ne (Ne.symm hbox)]

/-- Boxes that exist have valid identifiers. -/
theorem boxId_valid (hbox : box < sys.boxCount) : box ≠ boxIdInvalid := by
  have hle := sys.boxCount_le
  unfold maxBoxes at hle
  unfold boxIdInvalid
  omega

/-- An interrupt whose box is in no phase is seen as it is. -/
theorem seen_start (howned : (s.vectors irqn).id = owner) (hstart : s.counter owner = 0) :
    Seen owner irqn (s.nvic.enabled irqn) s :=
  ⟨howned, fun _ => rfl, fun hin => absurd hstart hin⟩

/-- The interrupts that are enabled when every call to enable or disable one is
done at once. -/
def directly : List Call → (ℕ → Bool) → ℕ → Bool
  | [], enabled => enabled
  | .irqEnable i :: cs, enabled => directly cs (Function.update enabled i true)
  | .irqDisable i :: cs, enabled => directly cs (Function.update enabled i false)
  | _ :: cs, enabled => directly cs enabled

theorem directly_eq (cs : List Call) (depths : ℕ → ℕ) (enabled : ℕ → Bool) :
    directly cs enabled irqn =
      written asked (enabled irqn) (events owner irqn depths (cs.map fun c => (owner, c))) := by
  induction cs generalizing depths enabled with
  | nil => rfl
  | cons c cs ih =>
    rw [List.map_cons, events, written_cons]
    cases c with
    | irqEnable i =>
      rw [directly, ih (depthsAfter depths owner (.irqEnable i))]
      by_cases hi : i = irqn
      · subst hi
        simp [eventOf, asked]
      · simp [eventOf, hi, asked, Function.update_of_ne (Ne.symm hi)]
    | irqDisable i =>
      rw [directly, ih (depthsAfter depths owner (.irqDisable i))]
      by_cases hi : i = irqn
      · subst hi
        by_cases hzero : depths owner = 0
        · simp [eventOf, hzero, asked]
        · simp [eventOf, hzero, asked]
      · simp [eventOf, hi, asked, Function.update_of_ne (Ne.symm hi)]
    | irqDisableAll =>
      have hevent : asked (eventOf owner irqn depths owner .irqDisableAll) = none := by
        simp [eventOf, asked]
      rw [hevent]
      exact ih _ _
    | _ => exact ih _ _

/-- The last call that counts has enabled the interrupt, or it has been enabled
from the start, and after that it is disabled in a phase. -/
def EnabledAgain (owner irqn : ℕ) (s : Virq.State) (calls : List (ℕ × Call)) : Prop :=
  Undone actual asked (s.nvic.enabled irqn) (events owner irqn s.counter calls)

/-- While a box is in a phase none of its interrupts is enabled. When it is in
none, its interrupts are what its calls ask for unless one is enabled again. -/
theorem phases_direct {cs : List Call} (hbox : box < sys.boxCount) (hstart : s.counter box = 0)
    (hs : runCalls sys (cs.map fun c => (box, c)) s = some t) :
    (t.counter box ≠ 0 → ∀ irqn < sys.nvicVectors, (s.vectors irqn).id = box →
      t.nvic.enabled irqn = false) ∧
    (t.counter box = 0 →
      ((∀ irqn < sys.nvicVectors, (s.vectors irqn).id = box →
          t.nvic.enabled irqn = directly cs s.nvic.enabled irqn) ↔
        ∀ irqn < sys.nvicVectors, (s.vectors irqn).id = box →
          ¬EnabledAgain box irqn s (cs.map fun c => (box, c)))) := by
  have hvalid := boxId_valid hbox
  have hseen : ∀ irqn < sys.nvicVectors, (s.vectors irqn).id = box →
      Seen box irqn (written actual (s.nvic.enabled irqn)
        (events box irqn s.counter (cs.map fun c => (box, c)))) t := fun irqn hlt howned =>
    (seen_start howned hstart).run hvalid hlt hs
  refine ⟨fun hin irqn hlt howned => ((hseen irqn hlt howned).inside hin).1, fun hout => ?_⟩
  refine forall_congr' fun irqn => forall_congr' fun hlt => forall_congr' fun howned => ?_
  rw [(hseen irqn hlt howned).outside hout, directly_eq cs s.counter, eq_comm]
  refine written_eq_iff (fun event bit => ?_) fun event => ?_
  · cases event <;> simp [actual, asked]
  · cases event <;> simp [actual, asked]

/-- Box 1 has interrupt 2 and enables it in a phase. It is enabled when the
phase ends. -/
theorem phases_direct_fourInterrupts :
    ∃ s t, runCalls fourInterrupts [(1, .isrGet 2)] setUp.state = some s ∧
      runCalls fourInterrupts ([.irqDisableAll, .irqEnable 2, .irqEnableAll].map fun c => (1, c)) s =
        some t ∧
      t.nvic.enabled 2 = directly [.irqDisableAll, .irqEnable 2, .irqEnableAll] s.nvic.enabled 2 := by
  have hrun : ((runCalls fourInterrupts [(1, .isrGet 2)] setUp.state).bind fun s =>
      (runCalls fourInterrupts ([.irqDisableAll, .irqEnable 2, .irqEnableAll].map fun c => (1, c))
        s).map fun t => (s.counter 1, t.counter 1, (s.vectors 2).id,
          (List.range 4).all fun i => (s.vectors i).id != 1 || !((events 1 i s.counter
            ([.irqDisableAll, .irqEnable 2, .irqEnableAll].map fun c => (1, c))).contains
              .disabledInPhase))) = some (0, 0, 1, true) := by decide +kernel
  obtain ⟨s, hs, hrest⟩ := Option.bind_eq_some_iff.mp hrun
  obtain ⟨t, ht, hfacts⟩ := Option.map_eq_some_iff.mp hrest
  simp only [Prod.mk.injEq] at hfacts
  obtain ⟨hstart, hout, hid, hevents⟩ := hfacts
  refine ⟨s, t, hs, ht, ((phases_direct (by decide) hstart ht).2 hout).mpr ?_ 2 (by decide) hid⟩
  rintro irqn hlt howned ⟨before, event, after, heq, hactual, hasked, -⟩
  have hevent : event = .disabledInPhase := by
    cases event <;> simp [actual, asked] at hactual hasked ⊢
  have hnone := List.all_eq_true.mp hevents irqn (List.mem_range.mpr hlt)
  rw [heq, hevent] at hnone
  simp [howned] at hnone

/-- Box 1 disables its interrupt 2 in a phase. The interrupt is enabled again
when the phase ends. -/
theorem phases_direct_fails :
    ∃ s t, runCalls fourInterrupts [(1, .irqEnable 2)] setUp.state = some s ∧
      runCalls fourInterrupts ([.irqDisableAll, .irqDisable 2, .irqEnableAll].map fun c => (1, c))
        s = some t ∧
      t.counter 1 = 0 ∧ t.nvic.enabled 2 = true ∧
      directly [.irqDisableAll, .irqDisable 2, .irqEnableAll] s.nvic.enabled 2 = false := by
  have hrun : ((runCalls fourInterrupts [(1, .irqEnable 2)] setUp.state).bind fun s =>
      (runCalls fourInterrupts ([.irqDisableAll, .irqDisable 2, .irqEnableAll].map fun c => (1, c))
        s).map fun t => (t.counter 1, t.nvic.enabled 2,
          directly [.irqDisableAll, .irqDisable 2, .irqEnableAll] s.nvic.enabled 2)) =
      some (0, true, false) := by decide +kernel
  obtain ⟨s, hs, hrest⟩ := Option.bind_eq_some_iff.mp hrun
  obtain ⟨t, ht, hfacts⟩ := Option.map_eq_some_iff.mp hrest
  simp only [Prod.mk.injEq] at hfacts
  exact ⟨s, t, hs, ht, hfacts⟩

/-- The calls of other boxes do not matter when overlaps are left out. -/
theorem alone_filter (calls : List (ℕ × Call)) {depths depths' : ℕ → ℕ}
    (hdepth : depths owner = depths' owner) (init : Bool) :
    written alone init (events owner irqn depths calls) =
      written alone init (events owner irqn depths' (calls.filter fun p => p.1 = owner)) := by
  induction calls generalizing depths depths' init with
  | nil => rfl
  | cons p calls ih =>
    obtain ⟨box, c⟩ := p
    by_cases hbox : box = owner
    · subst hbox
      have hevent : eventOf box irqn depths box c = eventOf box irqn depths' box c := by
        cases c <;> simp [eventOf, hdepth]
      rw [List.filter_cons_of_pos (by simp), events, events, written_cons, written_cons, hevent]
      refine ih ?_ _
      rw [depthsAfter, depthsAfter, Function.update_self, Function.update_self, hdepth]
    · have hevent : alone (eventOf owner irqn depths box c) = none := by
        cases c with
        | irqDisableAll =>
          rw [eventOf]
          split <;> rfl
        | _ => simp [eventOf, hbox, alone]
      rw [List.filter_cons_of_neg (by simpa using hbox), events, written_cons, hevent,
        Option.getD_none]
      refine ih ?_ _
      rw [depthsAfter, Function.update_of_ne (Ne.symm hbox), hdepth]

/-- The last call of the box that counts has enabled the interrupt, or it has
been enabled from the start, and after that another box starts a phase while
its own box is in one. -/
def Overwritten (owner irqn : ℕ) (s : Virq.State) (calls : List (ℕ × Call)) : Prop :=
  Undone alone actual (s.nvic.enabled irqn) (events owner irqn s.counter calls)

/-- Two runs in which a box makes the same calls leave the same of its
interrupts enabled exactly if the same of them are overwritten. -/
theorem phases_independent {calls calls' : List (ℕ × Call)} (hbox : box < sys.boxCount)
    (hstart : s.counter box = 0)
    (hsame : (calls.filter fun p => p.1 = box) = calls'.filter fun p => p.1 = box)
    (hs : runCalls sys calls s = some t) (hs' : runCalls sys calls' s = some t')
    (hout : t.counter box = 0) :
    (∀ irqn < sys.nvicVectors, (s.vectors irqn).id = box →
        t.nvic.enabled irqn = t'.nvic.enabled irqn) ↔
      ∀ irqn < sys.nvicVectors, (s.vectors irqn).id = box →
        (Overwritten box irqn s calls ↔ Overwritten box irqn s calls') := by
  have hvalid := boxId_valid hbox
  have hout' : t'.counter box = 0 := by rw [counter_run hs', ← hsame, ← counter_run hs, hout]
  refine forall_congr' fun irqn => forall_congr' fun hlt => forall_congr' fun howned => ?_
  have hseen := seen_start howned hstart
  rw [(hseen.run hvalid hlt hs).outside hout, (hseen.run hvalid hlt hs').outside hout']
  have halone : written alone (s.nvic.enabled irqn) (events box irqn s.counter calls) =
      written alone (s.nvic.enabled irqn) (events box irqn s.counter calls') := by
    rw [alone_filter calls rfl, alone_filter calls' rfl, hsame]
  have hiff : ∀ calls, written actual (s.nvic.enabled irqn) (events box irqn s.counter calls) =
      written alone (s.nvic.enabled irqn) (events box irqn s.counter calls) ↔
        ¬Overwritten box irqn s calls := fun calls => by
    refine written_eq_iff (fun event bit => ?_) fun event => ?_
    · cases event <;> simp [actual, alone]
    · cases event <;> simp [actual, alone]
  have hfirst := hiff calls
  have hsecond := hiff calls'
  rw [halone] at hfirst
  generalize written actual (s.nvic.enabled irqn) (events box irqn s.counter calls) = b at *
  generalize written actual (s.nvic.enabled irqn) (events box irqn s.counter calls') = b' at *
  generalize written alone (s.nvic.enabled irqn) (events box irqn s.counter calls') = kept at *
  rw [← not_iff_not (a := Overwritten box irqn s calls), ← hfirst, ← hsecond]
  cases b <;> cases b' <;> cases kept <;> simp

/-- Phases of boxes 0 and 1 one after the other. -/
theorem phases_independent_fourInterrupts :
    ∃ s t t', runCalls fourInterrupts [(1, .irqEnable 2)] setUp.state = some s ∧
      runCalls fourInterrupts [(0, .irqDisableAll), (0, .irqEnableAll), (1, .irqDisableAll),
        (1, .irqEnableAll)] s = some t ∧
      runCalls fourInterrupts [(1, .irqDisableAll), (1, .irqEnableAll)] s = some t' ∧
      t.nvic.enabled 2 = t'.nvic.enabled 2 := by
  have hrun : ((runCalls fourInterrupts [(1, .irqEnable 2)] setUp.state).bind fun s =>
      (runCalls fourInterrupts [(0, .irqDisableAll), (0, .irqEnableAll), (1, .irqDisableAll),
        (1, .irqEnableAll)] s).bind fun t =>
      (runCalls fourInterrupts [(1, .irqDisableAll), (1, .irqEnableAll)] s).map fun _ =>
        (s.counter 1, t.counter 1, (s.vectors 2).id, (List.range 4).all fun i =>
          !((events 1 i s.counter [(0, .irqDisableAll), (0, .irqEnableAll), (1, .irqDisableAll),
              (1, .irqEnableAll)]).contains .overlapped) &&
            !((events 1 i s.counter [(1, .irqDisableAll), (1, .irqEnableAll)]).contains
              .overlapped))) = some (0, 0, 1, true) := by decide +kernel
  obtain ⟨s, hs, hrest⟩ := Option.bind_eq_some_iff.mp hrun
  obtain ⟨t, ht, hrest⟩ := Option.bind_eq_some_iff.mp hrest
  obtain ⟨t', ht', hfacts⟩ := Option.map_eq_some_iff.mp hrest
  simp only [Prod.mk.injEq] at hfacts
  obtain ⟨hstart, hout, hid, hevents⟩ := hfacts
  have hmissing : ∀ irqn calls, Event.overlapped ∉ events 1 irqn s.counter calls →
      ¬Overwritten 1 irqn s calls := by
    rintro irqn calls hnone ⟨before, event, after, heq, halone, hactual, -⟩
    have hevent : event = .overlapped := by
      cases event <;> simp [alone, actual] at halone hactual ⊢
    exact hnone (by simp [heq, hevent])
  have hsame : (([(0, .irqDisableAll), (0, .irqEnableAll), (1, .irqDisableAll),
      (1, .irqEnableAll)] : List (ℕ × Call)).filter fun p => p.1 = 1) =
      [(1, .irqDisableAll), (1, .irqEnableAll)].filter fun p => p.1 = 1 := by decide
  refine ⟨s, t, t', hs, ht, ht',
    (phases_independent (by decide) hstart hsame ht ht' hout).mpr ?_ 2 (by decide) hid⟩
  intro irqn hlt _
  have hnone := List.all_eq_true.mp hevents irqn (List.mem_range.mpr hlt)
  simp only [Bool.and_eq_true, Bool.not_eq_true', List.contains_eq_mem, decide_eq_false_iff_not]
    at hnone
  exact iff_of_false (hmissing irqn _ hnone.1) (hmissing irqn _ hnone.2)

/-- A phase of box 0 starts in a phase of box 1. Interrupt 2 of box 1 stays
disabled after the phase, as it would not without the calls of box 0. -/
theorem phases_independent_fails :
    ∃ s t t', runCalls fourInterrupts [(1, .irqEnable 2)] setUp.state = some s ∧
      runCalls fourInterrupts [(1, .irqDisableAll), (0, .irqDisableAll), (0, .irqEnableAll),
        (1, .irqEnableAll)] s = some t ∧
      runCalls fourInterrupts [(1, .irqDisableAll), (1, .irqEnableAll)] s = some t' ∧
      t.counter 1 = 0 ∧ t'.counter 1 = 0 ∧
      t.nvic.enabled 2 = false ∧ t'.nvic.enabled 2 = true := by
  have hrun : ((runCalls fourInterrupts [(1, .irqEnable 2)] setUp.state).bind fun s =>
      (runCalls fourInterrupts [(1, .irqDisableAll), (0, .irqDisableAll), (0, .irqEnableAll),
        (1, .irqEnableAll)] s).bind fun t =>
      (runCalls fourInterrupts [(1, .irqDisableAll), (1, .irqEnableAll)] s).map fun t' =>
        (t.counter 1, t'.counter 1, t.nvic.enabled 2, t'.nvic.enabled 2)) =
      some (0, 0, false, true) := by decide +kernel
  obtain ⟨s, hs, hrest⟩ := Option.bind_eq_some_iff.mp hrun
  obtain ⟨t, ht, hrest⟩ := Option.bind_eq_some_iff.mp hrest
  obtain ⟨t', ht', hfacts⟩ := Option.map_eq_some_iff.mp hrest
  simp only [Prod.mk.injEq] at hfacts
  exact ⟨s, t, t', hs, ht, ht', hfacts⟩

end Runs

end Uvisor.VirqPhases
