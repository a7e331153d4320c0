import Uvisor.Execution
import Uvisor.SecureVirq

/-!
# Boxes keep their interrupts across switches on ARMv8-M

Over runs of switches, in which the active box programs the interrupt
controller as it likes, a box that becomes active again finds the enable bit
and the priority of each of its interrupts as it left them. Meanwhile its
interrupts are secure and disabled. Both rest on the order of the writes: a
held interrupt is disabled before it becomes secure, and a resumed one becomes
non-secure before it is enabled.
-/

namespace Uvisor.SecureVirq

open Execution
open Context (Word)

/-! ## Runs -/

/-- Enable bit and priority byte of every interrupt. -/
abbrev Snapshot := ℕ → Bool × BitVec 8

/-- What the interrupt controller holds. -/
def State.snapshot (s : State) : Snapshot := fun irqn => ((s.nvic irqn).enabled, (s.nvic irqn).ipr)

/-- The virtual interrupts with an account of the past. -/
structure System where
  /-- Variables and registers. -/
  state : State
  /-- What the controller held when a box was last switched out. -/
  left : ℕ → Option Snapshot

/-- What happens to the interrupts. -/
inductive Action where
  /-- An interrupt is given to a box, before the first switch. -/
  | aclAdd (boxId irqn : ℕ)
  /-- The very first switch, which has its destination for its source. -/
  | first (dstId : ℕ)
  /-- A switch from the active box. -/
  | switch (dstId : ℕ)
  /-- Non-secure code sets an enable bit. -/
  | enable (irqn : ℕ)
  /-- Non-secure code clears an enable bit. -/
  | disable (irqn : ℕ)
  /-- Non-secure code writes a priority byte. -/
  | setPriority (irqn : ℕ) (value : BitVec 8)
  /-- Interrupts become active or inactive, and banked exceptions change. -/
  | hardware (active : ℕ → Bool) (exceptions : Exceptions)

/-- Non-secure code works with the registers of one interrupt. -/
def State.access (irqn : ℕ) (write : Irq → Irq) (s : State) : State :=
  {s with nvic := Function.update s.nvic irqn (write (s.nvic irqn))}

/-- Switch to a box. -/
def switchTo (sys : Platform) (srcId dstId : ℕ) (s : State) : State :=
  virqSwitch sys srcId dstId {s with activeBox := dstId}

/-- One step. -/
def step (sys : Platform) (r : System) : Action → Option System
  | .aclAdd boxId irqn =>
    if r.state.activeBox = boxIdInvalid ∧ boxId < maxBoxes then
      (virqAclAdd sys boxId irqn r.state).map fun s => {r with state := s}
    else none
  | .first dstId =>
    if r.state.activeBox = boxIdInvalid ∧ dstId < maxBoxes then
      some {r with state := switchTo sys dstId dstId r.state}
    else none
  | .switch dstId =>
    let srcId := r.state.activeBox
    if srcId ≠ boxIdInvalid ∧ dstId < maxBoxes then
      some ⟨switchTo sys srcId dstId r.state,
        Function.update r.left srcId (some r.state.snapshot)⟩
    else none
  | .enable irqn => some {r with state := r.state.access irqn Irq.enableNs}
  | .disable irqn => some {r with state := r.state.access irqn Irq.disableNs}
  | .setPriority irqn value =>
    some {r with state := r.state.access irqn (Irq.writeIprNs sys value)}
  | .hardware active exceptions =>
    some {r with state := {r.state with
      nvic := fun irqn => {r.state.nvic irqn with active := active irqn}
      exceptions := exceptions}}

/-- An interrupt that is secure, disabled, and of priority zero. -/
structure Quiet (irq : Irq) : Prop where
  /-- It is secure. -/
  nonSecure : irq.nonSecure = false
  /-- It is disabled. -/
  enabled : irq.enabled = false
  /-- Its priority is zero. -/
  ipr : irq.ipr = 0

/-- The device after a reset. -/
structure Reset (s : State) : Prop where
  /-- No box is active. -/
  activeBox : s.activeBox = boxIdInvalid
  /-- No interrupt has been programmed. -/
  nvic : ∀ irqn, Quiet (s.nvic irqn)

/-- The monitor has started on a device after a reset. -/
def Booted (sys : Platform) (r : System) : Prop :=
  ∃ s, Reset s ∧ r = ⟨virqInit sys s, fun _ => none⟩

/-! ## Claims -/

/-- The interrupts of the boxes that are not active are secure and disabled. -/
def Isolated (sys : Platform) (s : State) : Prop :=
  ∀ irqn < sys.nvicVectors, (s.states irqn).boxId < maxBoxes → (s.states irqn).boxId ≠ s.activeBox →
    (s.nvic irqn).nonSecure = false ∧ (s.nvic irqn).enabled = false

/-- The active box has its interrupts as it last left them. -/
def Restored (sys : Platform) (r : System) : Prop :=
  ∀ snapshot, r.left r.state.activeBox = some snapshot →
    ∀ irqn < sys.nvicVectors, (r.state.states irqn).boxId = r.state.activeBox →
      r.state.snapshot irqn = snapshot irqn

/-! ## One interrupt -/

section OneIrq

variable {sys : Platform} {s : State} {srcId dstId : ℕ} {irq : Irq} {state : VirqState}

/-- A priority byte has bits only where they are implemented. -/
def Implemented (sys : Platform) (ipr : BitVec 8) : Prop := writeIpr sys ipr = ipr

theorem implemented_writeIpr (value : BitVec 8) : Implemented sys (writeIpr sys value) := by
  unfold Implemented writeIpr
  rw [BitVec.and_assoc, BitVec.and_self]

/-- A byte comes back from the priority that was read from it. -/
theorem writeIpr_iprOf {ipr : BitVec 8} (hipr : Implemented sys ipr) :
    writeIpr sys (iprOf sys.implementedBits (priorityOf sys.implementedBits ipr)) = ipr := by
  have hkept : ∀ i, ipr.getLsbD i = true → 8-sys.implementedBits ≤ i := by
    intro i hi
    rw [← hipr, writeIpr, BitVec.getLsbD_and, BitVec.getLsbD_shiftLeft] at hi
    simp only [Bool.and_eq_true, Bool.not_eq_true', decide_eq_false_iff_not] at hi
    exact not_lt.mp hi.2.1.2
  have hshift : iprOf sys.implementedBits (priorityOf sys.implementedBits ipr) = ipr := by
    unfold iprOf priorityOf
    apply BitVec.eq_of_getLsbD_eq
    intro i hi
    rw [BitVec.getLsbD_shiftLeft, BitVec.getLsbD_ushiftRight]
    by_cases hlow : i < 8-sys.implementedBits
    · have hzero : ipr.getLsbD i = false :=
        Bool.eq_false_iff.mpr fun hset => absurd (hkept i hset) (not_le.mpr hlow)
      simp only [hlow, hzero, decide_true, Bool.not_true, Bool.and_false, Bool.false_and]
    · have hback : 8-sys.implementedBits+(i-(8-sys.implementedBits)) = i := by omega
      simp only [hback, hi, hlow, decide_true, decide_false, Bool.not_false, Bool.true_and]
  rw [hshift, hipr]

theorem popcount_writeIpr (sys : Platform) :
    popcount (writeIpr sys 0xFF) = sys.implementedBits := by
  have hall : ∀ bits ≤ 8, popcount (0xFF &&& ((0xFF : BitVec 8) <<< (8-bits))) = bits := by decide
  exact hall sys.implementedBits sys.implementedBits_le

/-- Writes to non-secure registers do not change the target state. -/
theorem writeNs_nonSecure (sys : Platform) (prioBits : ℕ) (value : BitVec 8) (irq : Irq) :
    (irq.writeIprNs sys value).nonSecure = irq.nonSecure ∧
      (irq.setPriorityNs sys prioBits value).nonSecure = irq.nonSecure ∧
      irq.enableNs.nonSecure = irq.nonSecure ∧ irq.disableNs.nonSecure = irq.nonSecure := by
  cases hns : irq.nonSecure <;>
    simp [Irq.setPriorityNs, Irq.writeIprNs, Irq.enableNs, Irq.disableNs, hns]

/-- Writes to the enable bits do not change the priority. -/
theorem toggleNs_ipr (irq : Irq) : irq.enableNs.ipr = irq.ipr ∧ irq.disableNs.ipr = irq.ipr := by
  cases hns : irq.nonSecure <;> simp [Irq.enableNs, Irq.disableNs, hns]

theorem holdIrq_nonSecure : (holdIrq sys s irq state).1.nonSecure = false := rfl

/-- A non-secure interrupt that is put on hold is disabled. A secure one is not
changed. -/
theorem holdIrq_enabled :
    (holdIrq sys s irq state).1.enabled = (!irq.nonSecure && irq.enabled) := by
  cases hns : irq.nonSecure <;>
    simp [holdIrq, Irq.setPriorityNs, Irq.writeIprNs, Irq.disableNs, Irq.clearTargetState, hns]

theorem resumeIrq_nonSecure : (resumeIrq sys s irq state).nonSecure = true := by
  unfold resumeIrq
  rw [(writeNs_nonSecure sys s.prioBits state.priority _).2.1]
  split_ifs
  · exact (writeNs_nonSecure sys 0 0 _).2.2.1
  · rfl

/-- An interrupt that is resumed is enabled if it was saved so or is still
enabled. -/
theorem resumeIrq_enabled :
    (resumeIrq sys s irq state).enabled = (state.enabled || irq.enabled) := by
  cases hen : state.enabled <;>
    simp [resumeIrq, Irq.setTargetState, Irq.enableNs, Irq.setPriorityNs, Irq.writeIprNs, hen]

theorem resumeIrq_ipr :
    (resumeIrq sys s irq state).ipr = writeIpr sys (iprOf s.prioBits state.priority) := by
  cases hen : state.enabled <;>
    simp [resumeIrq, Irq.setTargetState, Irq.enableNs, Irq.setPriorityNs, Irq.writeIprNs, hen]

theorem switchIrq_boxId (irq : Irq) (state : VirqState) :
    (switchIrq sys s srcId dstId irq state).2.boxId = state.boxId := by
  by_cases hsrc : state.boxId = srcId <;> simp [switchIrq, holdIrq, hsrc]

/-- After a switch the interrupts of the destination are non-secure. -/
theorem switchIrq_nonSecure (hns : irq.nonSecure = true → state.boxId = srcId) :
    (switchIrq sys s srcId dstId irq state).1.nonSecure = decide (state.boxId = dstId) := by
  have howner := @switchIrq_boxId sys s srcId dstId irq state
  unfold switchIrq at howner ⊢
  dsimp only at howner ⊢
  rw [howner]
  by_cases hdst : state.boxId = dstId
  · rw [if_pos hdst, resumeIrq_nonSecure, decide_eq_true hdst]
  · rw [if_neg hdst, decide_eq_false hdst]
    by_cases hsrc : state.boxId = srcId
    · rw [if_pos hsrc, holdIrq_nonSecure]
    · rw [if_neg hsrc]
      exact Bool.eq_false_iff.mpr fun hset => hsrc (hns hset)

/-- A switch leaves an interrupt of a box that is not its destination disabled. -/
theorem switchIrq_disabled (hns : irq.nonSecure = true → state.boxId = srcId)
    (hoff : irq.nonSecure = false → irq.enabled = false) (hdst : state.boxId ≠ dstId) :
    (switchIrq sys s srcId dstId irq state).1.enabled = false := by
  unfold switchIrq
  dsimp only
  by_cases hsrc : state.boxId = srcId
  · have howner : (holdIrq sys s irq state).2.boxId ≠ dstId := hdst
    rw [if_pos hsrc, if_neg howner, holdIrq_enabled]
    cases hset : irq.nonSecure
    · rw [hoff hset]
      rfl
    · rfl
  · rw [if_neg hsrc, if_neg hdst]
    exact hoff (Bool.eq_false_iff.mpr fun hset => hsrc (hns hset))

/-- What is saved of an interrupt that is put on hold. -/
theorem switchIrq_saved (hsrc : state.boxId = srcId) (hns : irq.nonSecure = true) :
    (switchIrq sys s srcId dstId irq state).2.enabled = irq.enabled ∧
      (switchIrq sys s srcId dstId irq state).2.priority = priorityOf s.prioBits irq.ipr := by
  simp [switchIrq, holdIrq, Irq.getEnableNs, Irq.getPriorityNs, hsrc, hns]

/-- The state of an interrupt of another box stays saved. -/
theorem switchIrq_kept (hsrc : state.boxId ≠ srcId) :
    (switchIrq sys s srcId dstId irq state).2 = state := by
  simp [switchIrq, hsrc]

/-- What an interrupt that is resumed holds. -/
theorem switchIrq_resumed (hoff : irq.nonSecure = false → irq.enabled = false)
    (hns : irq.nonSecure = true → state.boxId = srcId) (hdst : state.boxId = dstId) :
    (switchIrq sys s srcId dstId irq state).1.enabled =
        (switchIrq sys s srcId dstId irq state).2.enabled ∧
      (switchIrq sys s srcId dstId irq state).1.ipr =
        writeIpr sys (iprOf s.prioBits (switchIrq sys s srcId dstId irq state).2.priority) := by
  unfold switchIrq
  dsimp only
  by_cases hsrc : state.boxId = srcId
  · have howner : (holdIrq sys s irq state).2.boxId = dstId := hdst
    rw [if_pos hsrc, if_pos howner, resumeIrq_enabled, resumeIrq_ipr, holdIrq_enabled]
    refine ⟨?_, rfl⟩
    cases hset : irq.nonSecure
    · rw [hoff hset, Bool.and_false, Bool.or_false]
    · rw [Bool.not_true, Bool.false_and, Bool.or_false]
  · have hsecure : irq.nonSecure = false := Bool.eq_false_iff.mpr fun hset => hsrc (hns hset)
    rw [if_neg hsrc, if_pos hdst, resumeIrq_enabled, resumeIrq_ipr, hoff hsecure, Bool.or_false]
    exact ⟨rfl, rfl⟩

theorem implemented_writeIprNs (value : BitVec 8) (hipr : Implemented sys irq.ipr) :
    Implemented sys (irq.writeIprNs sys value).ipr := by
  unfold Irq.writeIprNs
  split_ifs
  · exact implemented_writeIpr value
  · exact hipr

theorem switchIrq_implemented (hipr : Implemented sys irq.ipr) :
    Implemented sys (switchIrq sys s srcId dstId irq state).1.ipr := by
  have hheld : Implemented sys (holdIrq sys s irq state).1.ipr := by
    have hwritten := implemented_writeIprNs (iprOf s.prioBits s.minPriority) hipr
    unfold holdIrq Irq.clearTargetState Irq.disableNs
    dsimp only
    split_ifs
    · exact hwritten
    · exact hwritten
  unfold switchIrq
  dsimp only
  split_ifs
  · rw [resumeIrq_ipr]
    exact implemented_writeIpr _
  · exact hheld
  · rw [resumeIrq_ipr]
    exact implemented_writeIpr _
  · exact hipr

end OneIrq

/-! ## One switch -/

section OneSwitch

variable (sys : Platform) (srcId dstId : ℕ) (s : State)

/-- State in which the loop of a switch has dealt with some interrupts. -/
def switched (n : ℕ) : State :=
  {s with
    nvic := fun i =>
      if i < n then (switchIrq sys s srcId dstId (s.nvic i) (s.states i)).1 else s.nvic i
    states := fun i =>
      if i < n then (switchIrq sys s srcId dstId (s.nvic i) (s.states i)).2 else s.states i}

/-- A pass deals with the next interrupt. -/
theorem switchBody_switched (n : ℕ) (active : Bool) :
    (switchBody sys srcId dstId (switched sys srcId dstId s n, active) n).1 =
      switched sys srcId dstId s (n+1) := by
  have hnvic : (switched sys srcId dstId s n).nvic n = s.nvic n := if_neg (lt_irrefl n)
  have hstates : (switched sys srcId dstId s n).states n = s.states n := if_neg (lt_irrefl n)
  have hnew : ∀ irq state, switchIrq sys (switched sys srcId dstId s n) srcId dstId irq state =
      switchIrq sys s srcId dstId irq state := fun _ _ => rfl
  unfold switchBody
  dsimp only
  rw [hnvic, hstates, hnew]
  unfold switched
  rw [← update_below, ← update_below]

/-- The loop deals with all interrupts. -/
theorem switchLoop_eq (n : ℕ) :
    ((List.range n).foldl (switchBody sys srcId dstId) (s, false)).1 =
      switched sys srcId dstId s n := by
  induction n with
  | zero => simp [switched]
  | succ n ih =>
    rw [List.range_succ, List.foldl_append, List.foldl_cons, List.foldl_nil,
      ← switchBody_switched sys srcId dstId s n, ← ih]

/-- After its loop a switch is only about the banked exceptions. -/
theorem virqSwitch_irqs :
    (virqSwitch sys srcId dstId s).nvic = (switched sys srcId dstId s sys.nvicVectors).nvic ∧
      (virqSwitch sys srcId dstId s).states =
        (switched sys srcId dstId s sys.nvicVectors).states ∧
      (virqSwitch sys srcId dstId s).prioBits = s.prioBits ∧
      (virqSwitch sys srcId dstId s).activeBox = s.activeBox := by
  have hloop := switchLoop_eq sys srcId dstId s sys.nvicVectors
  unfold virqSwitch
  generalize (List.range sys.nvicVectors).foldl (switchBody sys srcId dstId) (s, false) = loop
    at hloop ⊢
  rw [← hloop]
  refine ⟨rfl, rfl, ?_, ?_⟩
  · change loop.1.prioBits = s.prioBits
    rw [hloop]
    rfl
  · change loop.1.activeBox = s.activeBox
    rw [hloop]
    rfl

end OneSwitch

/-! ## What holds in every run -/

section Runs

variable {sys : Platform} {r t : System} {dstId : ℕ}

/-- A saved state is that of an interrupt when its box was switched out. -/
structure Matches (sys : Platform) (state : VirqState) (irq : Bool × BitVec 8) : Prop where
  /-- Enable bit. -/
  enabled : state.enabled = irq.1
  /-- Priority. -/
  priority : state.priority = priorityOf sys.implementedBits irq.2
  /-- The priority byte was read from the controller. -/
  implemented : Implemented sys irq.2

/-- Invariant of the runs. -/
structure Inv (sys : Platform) (r : System) : Prop where
  /-- The number of priority bits has been found. -/
  prioBits : r.state.prioBits = sys.implementedBits
  /-- Priority bytes have only bits that are implemented. -/
  implemented : ∀ irqn < sys.nvicVectors, Implemented sys (r.state.nvic irqn).ipr
  /-- Exactly the interrupts of the active box are non-secure. -/
  nonSecure : ∀ irqn < sys.nvicVectors, ((r.state.nvic irqn).nonSecure = true ↔
    r.state.activeBox ≠ boxIdInvalid ∧ (r.state.states irqn).boxId = r.state.activeBox)
  /-- Secure interrupts are disabled. -/
  disabled : ∀ irqn < sys.nvicVectors, (r.state.nvic irqn).nonSecure = false →
    (r.state.nvic irqn).enabled = false
  /-- The saved states are those of the last switch from each box. -/
  saved : ∀ b snapshot, r.left b = some snapshot → b ≠ r.state.activeBox →
    ∀ irqn < sys.nvicVectors, (r.state.states irqn).boxId = b →
      Matches sys (r.state.states irqn) (snapshot irqn)
  /-- Before the first switch no box has been switched out. -/
  fresh : r.state.activeBox = boxIdInvalid → ∀ b, r.left b = none

theorem Inv.isolated (h : Inv sys r) : Isolated sys r.state := by
  intro irqn hirqn _ hother
  have hsecure : (r.state.nvic irqn).nonSecure = false :=
    Bool.eq_false_iff.mpr fun hset => hother ((h.nonSecure irqn hirqn).mp hset).2
  exact ⟨hsecure, h.disabled irqn hirqn hsecure⟩

/-- What a switch needs of the state before, and of the account after it. -/
structure Switches (sys : Platform) (srcId : ℕ) (s : State) (left : ℕ → Option Snapshot) :
    Prop where
  /-- The number of priority bits has been found. -/
  prioBits : s.prioBits = sys.implementedBits
  /-- Priority bytes have only bits that are implemented. -/
  implemented : ∀ irqn < sys.nvicVectors, Implemented sys (s.nvic irqn).ipr
  /-- Non-secure interrupts are those of the source. -/
  nonSecure : ∀ irqn < sys.nvicVectors, (s.nvic irqn).nonSecure = true →
    (s.states irqn).boxId = srcId
  /-- Secure interrupts are disabled. -/
  disabled : ∀ irqn < sys.nvicVectors, (s.nvic irqn).nonSecure = false →
    (s.nvic irqn).enabled = false
  /-- The states that are saved or kept are those of the last switch from each
  box. -/
  saved : ∀ b snapshot, left b = some snapshot → ∀ irqn < sys.nvicVectors,
    (s.states irqn).boxId = b → ∀ dstId,
      Matches sys (switchIrq sys s srcId dstId (s.nvic irqn) (s.states irqn)).2 (snapshot irqn)

/-- Interrupts and saved states after a switch. -/
theorem switchTo_irq (srcId dstId : ℕ) (s : State) {irqn : ℕ} (hirqn : irqn < sys.nvicVectors) :
    ((switchTo sys srcId dstId s).nvic irqn, (switchTo sys srcId dstId s).states irqn) =
      switchIrq sys s srcId dstId (s.nvic irqn) (s.states irqn) := by
  obtain ⟨hnvic, hstates, -, -⟩ := virqSwitch_irqs sys srcId dstId {s with activeBox := dstId}
  unfold switchTo
  rw [hnvic, hstates]
  unfold switched
  dsimp only
  rw [if_pos hirqn, if_pos hirqn]
  rfl

/-- A switch establishes the invariant again, and restores the destination. -/
theorem Switches.inv {srcId : ℕ} {s : State} {left : ℕ → Option Snapshot}
    (h : Switches sys srcId s left) (hdst : dstId < maxBoxes) :
    Inv sys ⟨switchTo sys srcId dstId s, left⟩ ∧
      Restored sys ⟨switchTo sys srcId dstId s, left⟩ := by
  obtain ⟨-, -, hbits, hactive⟩ := virqSwitch_irqs sys srcId dstId {s with activeBox := dstId}
  change (switchTo sys srcId dstId s).prioBits = s.prioBits at hbits
  change (switchTo sys srcId dstId s).activeBox = dstId at hactive
  have hvalid : dstId ≠ boxIdInvalid := by
    unfold maxBoxes at hdst
    unfold boxIdInvalid
    omega
  have hnvic : ∀ irqn < sys.nvicVectors, (switchTo sys srcId dstId s).nvic irqn =
      (switchIrq sys s srcId dstId (s.nvic irqn) (s.states irqn)).1 := fun irqn hirqn =>
    congrArg Prod.fst (switchTo_irq srcId dstId s hirqn)
  have hstates : ∀ irqn < sys.nvicVectors, (switchTo sys srcId dstId s).states irqn =
      (switchIrq sys s srcId dstId (s.nvic irqn) (s.states irqn)).2 := fun irqn hirqn =>
    congrArg Prod.snd (switchTo_irq srcId dstId s hirqn)
  have howner : ∀ irqn < sys.nvicVectors,
      ((switchTo sys srcId dstId s).states irqn).boxId = (s.states irqn).boxId := by
    intro irqn hirqn
    rw [hstates irqn hirqn, switchIrq_boxId]
  refine ⟨⟨hbits.trans h.prioBits, fun irqn hirqn => ?_, fun irqn hirqn => ?_,
    fun irqn hirqn hsecure => ?_, fun b snapshot hleft _ irqn hirqn hb => ?_,
    fun hnone => absurd (hactive.symm.trans hnone) hvalid⟩,
    fun snapshot hleft irqn hirqn hb => ?_⟩
  · rw [hnvic irqn hirqn]
    exact switchIrq_implemented (h.implemented irqn hirqn)
  · dsimp only
    rw [hnvic irqn hirqn, switchIrq_nonSecure (h.nonSecure irqn hirqn), howner irqn hirqn, hactive,
      decide_eq_true_iff]
    exact ⟨fun heq => ⟨hvalid, heq⟩, fun hboth => hboth.2⟩
  · dsimp only at hsecure ⊢
    rw [hnvic irqn hirqn] at hsecure ⊢
    rw [switchIrq_nonSecure (h.nonSecure irqn hirqn), decide_eq_false_iff_not] at hsecure
    exact switchIrq_disabled (h.nonSecure irqn hirqn) (h.disabled irqn hirqn) hsecure
  · dsimp only at hb ⊢
    rw [howner irqn hirqn] at hb
    rw [hstates irqn hirqn]
    exact h.saved b snapshot hleft irqn hirqn hb dstId
  · dsimp only at hleft hb
    rw [hactive] at hleft hb
    rw [howner irqn hirqn] at hb
    obtain ⟨hen, hipr⟩ := switchIrq_resumed (h.disabled irqn hirqn) (h.nonSecure irqn hirqn) hb
    have hmatch := h.saved dstId snapshot hleft irqn hirqn hb dstId
    unfold State.snapshot
    rw [hnvic irqn hirqn, hen, hipr, hmatch.enabled, hmatch.priority, h.prioBits,
      writeIpr_iprOf hmatch.implemented]

/-- The invariant is what a switch from the active box needs. -/
theorem Inv.switches (h : Inv sys r) (hactive : r.state.activeBox ≠ boxIdInvalid) :
    Switches sys r.state.activeBox r.state
      (Function.update r.left r.state.activeBox (some r.state.snapshot)) := by
  refine ⟨h.prioBits, h.implemented, fun irqn hirqn hset => ((h.nonSecure irqn hirqn).mp hset).2,
    h.disabled, fun b snapshot hleft irqn hirqn hb dstId => ?_⟩
  by_cases hsrc : b = r.state.activeBox
  · -- What the active box leaves is saved in this switch.
    subst hsrc
    rw [Function.update_self] at hleft
    obtain rfl := Option.some.inj hleft
    have hset := (h.nonSecure irqn hirqn).mpr ⟨hactive, hb⟩
    obtain ⟨hen, hpriority⟩ := @switchIrq_saved sys r.state _ dstId _ _ hb hset
    rw [h.prioBits] at hpriority
    exact ⟨hen, hpriority, h.implemented irqn hirqn⟩
  · rw [Function.update_of_ne hsrc] at hleft
    rw [switchIrq_kept (fun heq => hsrc (hb.symm.trans heq))]
    exact h.saved b snapshot hleft hsrc irqn hirqn hb

/-- The very first switch. -/
theorem Inv.first (h : Inv sys r) (hactive : r.state.activeBox = boxIdInvalid) :
    Switches sys dstId r.state r.left := by
  refine ⟨h.prioBits, h.implemented,
    fun irqn hirqn hset => absurd hactive ((h.nonSecure irqn hirqn).mp hset).1, h.disabled,
    fun b snapshot hleft => ?_⟩
  rw [h.fresh hactive b] at hleft
  cases hleft

/-- Non-secure code changes only the enable bit and the priority of interrupts
of the active box. -/
theorem Inv.access (h : Inv sys r) {write : Irq → Irq} (irqn : ℕ)
    (hns : ∀ irq, (write irq).nonSecure = irq.nonSecure)
    (hsecure : ∀ irq, irq.nonSecure = false → write irq = irq)
    (hipr : ∀ irq, Implemented sys irq.ipr → Implemented sys (write irq).ipr) :
    Inv sys {r with state := r.state.access irqn write} := by
  have hnvic : ∀ i, (r.state.access irqn write).nvic i =
      if i = irqn then write (r.state.nvic i) else r.state.nvic i := by
    intro i
    change Function.update r.state.nvic irqn (write (r.state.nvic irqn)) i = _
    by_cases hi : i = irqn
    · rw [hi, if_pos rfl, Function.update_self]
    · rw [if_neg hi, Function.update_of_ne hi]
  have hkept : ∀ i, ((r.state.access irqn write).nvic i).nonSecure =
      (r.state.nvic i).nonSecure := by
    intro i
    rw [hnvic]
    split_ifs
    · exact hns _
    · rfl
  refine ⟨h.prioBits, fun i hi => ?_, fun i hi => ?_, fun i hi hoff => ?_, h.saved, h.fresh⟩
  · dsimp only
    rw [hnvic]
    split_ifs
    · exact hipr _ (h.implemented i hi)
    · exact h.implemented i hi
  · dsimp only
    rw [hkept]
    exact h.nonSecure i hi
  · dsimp only at hoff ⊢
    rw [hkept] at hoff
    rw [hnvic]
    split_ifs
    · rw [hsecure _ hoff]
      exact h.disabled i hi hoff
    · exact h.disabled i hi hoff

theorem Inv.step (h : Inv sys r) {a : Action} (hs : step sys r a = some t) : Inv sys t := by
  cases a with
  | aclAdd boxId irqn =>
    simp only [SecureVirq.step] at hs
    split_ifs at hs with hguard
    obtain ⟨s, hadd, rfl⟩ := Option.map_eq_some_iff.mp hs
    obtain ⟨-, -, rfl⟩ := Option.map_eq_some_iff.mp hadd
    have hnone : ∀ i < sys.nvicVectors, (r.state.nvic i).nonSecure ≠ true := fun i hi hset =>
      ((h.nonSecure i hi).mp hset).1 hguard.1
    refine ⟨h.prioBits, h.implemented, fun i hi => ?_, h.disabled,
      fun b snapshot hleft => ?_, h.fresh⟩
    · exact ⟨fun hset => absurd hset (hnone i hi), fun hactive => absurd hguard.1 hactive.1⟩
    · rw [h.fresh hguard.1 b] at hleft
      cases hleft
  | first dstId =>
    simp only [SecureVirq.step] at hs
    split_ifs at hs with hguard
    cases hs
    exact ((h.first hguard.1).inv hguard.2).1
  | switch dstId =>
    simp only [SecureVirq.step] at hs
    split_ifs at hs with hguard
    cases hs
    exact ((h.switches hguard.1).inv hguard.2).1
  | enable irqn =>
    cases hs
    refine h.access irqn (fun irq => (writeNs_nonSecure sys 0 0 irq).2.2.1) (fun irq hoff => ?_)
      (fun irq hipr => ?_)
    · simp [Irq.enableNs, hoff]
    · rwa [(toggleNs_ipr irq).1]
  | disable irqn =>
    cases hs
    refine h.access irqn (fun irq => (writeNs_nonSecure sys 0 0 irq).2.2.2) (fun irq hoff => ?_)
      (fun irq hipr => ?_)
    · simp [Irq.disableNs, hoff]
    · rwa [(toggleNs_ipr irq).2]
  | setPriority irqn value =>
    cases hs
    refine h.access irqn (fun irq => (writeNs_nonSecure sys 0 value irq).1) (fun irq hoff => ?_)
      (fun irq hipr => implemented_writeIprNs value hipr)
    simp [Irq.writeIprNs, hoff]
  | hardware active exceptions =>
    cases hs
    exact ⟨h.prioBits, h.implemented, h.nonSecure, h.disabled, h.saved, h.fresh⟩

/-- The first interrupts, taken from the boxes and made secure. -/
def initialized (s : State) (n : ℕ) : State :=
  {s with
    states := fun i => if i < n then {s.states i with boxId := boxIdInvalid} else s.states i
    nvic := fun i => if i < n then (s.nvic i).clearTargetState else s.nvic i}

theorem initLoop_eq (s : State) (n : ℕ) :
    (List.range n).foldl initBody s = initialized s n := by
  refine foldl_range_eq (initialized s) rfl fun i _ => ?_
  have hstates : (initialized s i).states i = s.states i := if_neg (lt_irrefl i)
  have hnvic : (initialized s i).nvic i = s.nvic i := if_neg (lt_irrefl i)
  unfold initBody
  rw [hstates, hnvic]
  unfold initialized
  rw [← update_below, ← update_below]

theorem inv_booted (h : Booted sys r) : Inv sys r := by
  obtain ⟨s, hreset, rfl⟩ := h
  have hzero : Implemented sys 0 := BitVec.zero_and
  have hbits : (virqInit sys s).prioBits = sys.implementedBits := by
    unfold virqInit
    rw [initLoop_eq]
    exact popcount_writeIpr sys
  have hactive : (virqInit sys s).activeBox = boxIdInvalid := by
    unfold virqInit
    rw [initLoop_eq]
    exact hreset.activeBox
  -- The first interrupt gets its priority back after the search for the bits.
  have hquiet : ∀ i, Quiet
      (Function.update s.nvic 0 {s.nvic 0 with ipr := writeIpr sys (s.nvic 0).ipr} i) := by
    intro i
    by_cases hi : i = 0
    · subst hi
      rw [Function.update_self, (hreset.nvic 0).ipr]
      exact ⟨(hreset.nvic 0).nonSecure, (hreset.nvic 0).enabled, hzero⟩
    · rw [Function.update_of_ne hi]
      exact hreset.nvic i
  have hnvic : ∀ irqn, Quiet ((virqInit sys s).nvic irqn) := by
    intro irqn
    unfold virqInit
    rw [initLoop_eq]
    unfold initialized
    dsimp only
    split_ifs
    · exact ⟨rfl, (hquiet irqn).enabled, (hquiet irqn).ipr⟩
    · exact hquiet irqn
  refine ⟨hbits, fun irqn _ => ?_, fun irqn _ => ?_, fun irqn _ _ => (hnvic irqn).enabled,
    fun b snapshot hleft => ?_, fun _ _ => rfl⟩
  · dsimp only
    rw [(hnvic irqn).ipr]
    exact hzero
  · dsimp only
    rw [(hnvic irqn).nonSecure, hactive]
    exact ⟨fun hset => absurd hset (by decide), fun hset => absurd rfl hset.1⟩
  · cases hleft

theorem inv_reachable (h : Reachable (Booted sys) (step sys) (fun _ _ => True) r) : Inv sys r :=
  h.invariant (Inv sys) (fun _ => inv_booted) fun _ _ _ hinv _ hs => hinv.step hs

/-- In every run the interrupts of the boxes that are not active are secure and
disabled, and a box that becomes active has its interrupts as it left them. -/
theorem switch_faithful (h : Reachable (Booted sys) (step sys) (fun _ _ => True) r) :
    Isolated sys r.state ∧
      ∀ dstId t, step sys r (.switch dstId) = some t → Restored sys t := by
  have hinv := inv_reachable h
  refine ⟨hinv.isolated, fun dstId t hs => ?_⟩
  simp only [step] at hs
  split_ifs at hs with hguard
  cases hs
  exact ((hinv.switches hguard.1).inv hguard.2).2

/-- A device with four interrupts and three priority bits. -/
def smallDevice : Platform := ⟨4, 3, by decide, false⟩

/-- The device after a reset. -/
def resetState : State where
  activeBox := boxIdInvalid
  prioBits := 0
  minPriority := 0
  states := fun _ => ⟨0, false, 0⟩
  systick := fun _ => ⟨0, 0, false, false, 0⟩
  svcall := fun _ => ⟨false, false, 0⟩
  boxInActiveIrq := fun _ => false
  nvic := fun _ => ⟨false, false, false, 0⟩
  exceptions := ⟨0, 0, 0, false, false, 0, false, false, 0⟩

/-- The monitor has started on it. -/
def bootedDevice : System := ⟨virqInit smallDevice resetState, fun _ => none⟩

/-- Box 0 programs its interrupt, and box 1 becomes active and tries to disable
it. Box 0 finds it enabled and with its priority. -/
theorem switch_faithful_twoBoxes : ∃ r t,
    exec (step smallDevice) [.aclAdd 0 1, .aclAdd 1 2, .first 0, .enable 1, .setPriority 1 0x47,
      .switch 1, .enable 2, .disable 1] bootedDevice = some r ∧
    step smallDevice r (.switch 0) = some t ∧ Isolated smallDevice r.state ∧
    Restored smallDevice t ∧ t.state.snapshot 1 = (true, 0x40) := by
  have hbooted : Booted smallDevice bootedDevice :=
    ⟨resetState, ⟨rfl, fun _ => ⟨rfl, rfl, rfl⟩⟩, rfl⟩
  have hrun : ((exec (step smallDevice) [.aclAdd 0 1, .aclAdd 1 2, .first 0, .enable 1,
      .setPriority 1 0x47, .switch 1, .enable 2, .disable 1] bootedDevice).bind fun r =>
        (step smallDevice r (.switch 0)).map fun t => t.state.snapshot 1) =
      some (true, 0x40) := by decide
  obtain ⟨r, hr, hmap⟩ := Option.bind_eq_some_iff.mp hrun
  obtain ⟨t, ht, hsnapshot⟩ := Option.map_eq_some_iff.mp hmap
  obtain ⟨hisolated, hrestored⟩ := switch_faithful (exec_reachable (.start hbooted) hr)
  exact ⟨r, t, hr, ht, hisolated, hrestored 0 t ht, hsnapshot⟩

end Runs

end Uvisor.SecureVirq
