import Uvisor.Context
import Mathlib.Data.Nat.Notation

/-!
# Virtual interrupts on ARMv8-M

The interrupts of the active box are handed to the non-secure state, which
then works with the interrupt controller directly. When another box becomes
active, its predecessor's interrupts are put on hold: they are saved, given
the lowest priority, disabled and taken back to the secure state, where
non-secure registers read as zero and ignore writes. The exceptions that are
banked between the states are saved and loaded at every switch. The assertions
of the debug build are absent, as in a release build.
-/

namespace Uvisor.SecureVirq

open Context (Word)

/-! ## State -/

/-- UVISOR_BOX_ID_INVALID. -/
def boxIdInvalid : ℕ := 255

/-- UVISOR_MAX_BOXES. -/
def maxBoxes : ℕ := 5

/-- What the device has. -/
structure Platform where
  /-- NVIC_VECTORS. -/
  nvicVectors : ℕ
  /-- Number of priority bits that are implemented. -/
  implementedBits : ℕ
  /-- A priority is a byte. -/
  implementedBits_le : implementedBits ≤ 8
  /-- Whether an exception is pending after a write that both sets and clears
  its pending bit, which the architecture leaves open. -/
  pendsAfterBoth : Bool

/-- Registers of the interrupt controller for one interrupt. -/
structure Irq where
  /-- Target state, a bit of NVIC_ITNS. -/
  nonSecure : Bool
  /-- Enable bit. -/
  enabled : Bool
  /-- Active bit. -/
  active : Bool
  /-- NVIC_IPR, the priority byte. -/
  ipr : BitVec 8
  deriving DecidableEq

/-- State of an interrupt of a box. -/
structure VirqState where
  /-- Owner. -/
  boxId : ℕ
  /-- Enable bit when the box was last switched out. -/
  enabled : Bool
  /-- Priority when the box was last switched out. -/
  priority : BitVec 8
  deriving DecidableEq

/-- Non-secure registers of the exceptions that are banked. -/
structure Exceptions where
  /-- SysTick control. -/
  ctrl : Word
  /-- SysTick reload value. -/
  load : Word
  /-- SysTick current value. -/
  val : Word
  /-- SysTick pending bit. -/
  systickPending : Bool
  /-- SysTick active bit. -/
  systickActive : Bool
  /-- SysTick priority byte. -/
  systickShpr : BitVec 8
  /-- SVCall pending bit. -/
  svcallPending : Bool
  /-- SVCall active bit. -/
  svcallActive : Bool
  /-- SVCall priority byte. -/
  svcallShpr : BitVec 8

/-- Saved state of the SysTick. -/
structure SystickState where
  /-- Control. -/
  ctrl : Word
  /-- Reload value. -/
  load : Word
  /-- Pending bit. -/
  pending : Bool
  /-- Active bit. -/
  active : Bool
  /-- Priority. -/
  priority : BitVec 8

/-- Saved state of the SVCall. -/
structure SvcallState where
  /-- Active bit. -/
  active : Bool
  /-- Pending bit. -/
  pending : Bool
  /-- Priority. -/
  priority : BitVec 8

/-- Variables of the virtual interrupts and the registers they work with. -/
structure State where
  /-- g_active_box. -/
  activeBox : ℕ
  /-- g_virq_prio_bits, which is also __NVIC_PRIO_BITS. -/
  prioBits : ℕ
  /-- g_virq_min_priority. -/
  minPriority : BitVec 8
  /-- g_virq_states. -/
  states : ℕ → VirqState
  /-- g_virq_system_exception_state, the SysTick. -/
  systick : ℕ → SystickState
  /-- g_virq_system_exception_state, the SVCall. -/
  svcall : ℕ → SvcallState
  /-- g_virq_box_in_active_irq. -/
  boxInActiveIrq : ℕ → Bool
  /-- The interrupt controller. -/
  nvic : ℕ → Irq
  /-- Banked exceptions of the non-secure state. -/
  exceptions : Exceptions

/-! ## The interrupt controller -/

/-- What a priority byte is after a write: the bits that are implemented are
the high ones. -/
def writeIpr (sys : Platform) (value : BitVec 8) : BitVec 8 :=
  value &&& ((0xFF : BitVec 8) <<< (8-sys.implementedBits))

/-- Byte that holds a priority. -/
def iprOf (prioBits : ℕ) (priority : BitVec 8) : BitVec 8 := priority <<< (8-prioBits)

/-- Priority that a byte holds. -/
def priorityOf (prioBits : ℕ) (ipr : BitVec 8) : BitVec 8 := ipr >>> (8-prioBits)

/-- TZ_NVIC_GetEnableIRQ_NS. -/
def Irq.getEnableNs (irq : Irq) : Bool := irq.nonSecure && irq.enabled

/-- TZ_NVIC_GetPriority_NS. -/
def Irq.getPriorityNs (prioBits : ℕ) (irq : Irq) : BitVec 8 :=
  priorityOf prioBits (if irq.nonSecure then irq.ipr else 0)

/-- TZ_NVIC_GetActive_NS. -/
def Irq.getActiveNs (irq : Irq) : Bool := irq.nonSecure && irq.active

/-- A write to the non-secure alias of the priority byte. -/
def Irq.writeIprNs (sys : Platform) (value : BitVec 8) (irq : Irq) : Irq :=
  if irq.nonSecure then {irq with ipr := writeIpr sys value} else irq

/-- TZ_NVIC_SetPriority_NS. -/
def Irq.setPriorityNs (sys : Platform) (prioBits : ℕ) (priority : BitVec 8) (irq : Irq) : Irq :=
  irq.writeIprNs sys (iprOf prioBits priority)

/-- TZ_NVIC_EnableIRQ_NS. -/
def Irq.enableNs (irq : Irq) : Irq := if irq.nonSecure then {irq with enabled := true} else irq

/-- TZ_NVIC_DisableIRQ_NS. -/
def Irq.disableNs (irq : Irq) : Irq := if irq.nonSecure then {irq with enabled := false} else irq

/-- NVIC_SetTargetState. -/
def Irq.setTargetState (irq : Irq) : Irq := {irq with nonSecure := true}

/-- NVIC_ClearTargetState. -/
def Irq.clearTargetState (irq : Irq) : Irq := {irq with nonSecure := false}

/-! ## Ownership and initialization -/

/-- virq_check_acls. The result is missing where the system halts. -/
def virqCheckAcls (sys : Platform) (irqn boxId : ℕ) (s : State) : Option Unit :=
  if sys.nvicVectors ≤ irqn then none
  else if (s.states irqn).boxId ≠ boxIdInvalid ∧ (s.states irqn).boxId ≠ boxId then none
  else some ()

/-- virq_acl_add. -/
def virqAclAdd (sys : Platform) (boxId irqn : ℕ) (s : State) : Option State :=
  (virqCheckAcls sys irqn boxId s).map fun _ =>
    {s with states := Function.update s.states irqn {s.states irqn with boxId := boxId}}

/-- Number of bits that are set. -/
def popcount (value : BitVec 8) : ℕ := (List.range 8).countP fun i => value.getLsbD i

/-- One pass of the loop of virq_init. -/
def initBody (s : State) (irqn : ℕ) : State :=
  {s with
    states := Function.update s.states irqn {s.states irqn with boxId := boxIdInvalid}
    nvic := Function.update s.nvic irqn (s.nvic irqn).clearTargetState}

/-- virq_init. The implemented priority bits are found by writing all of them
for the first interrupt. -/
def virqInit (sys : Platform) (s : State) : State :=
  let prioBits := popcount (writeIpr sys 0xFF)
  let first := {s.nvic 0 with ipr := writeIpr sys (s.nvic 0).ipr}
  (List.range sys.nvicVectors).foldl initBody
    {s with
      prioBits := prioBits
      minPriority := BitVec.ofNat 8 (1 <<< prioBits-1)
      nvic := Function.update s.nvic 0 first}

/-! ## Switching -/

/-- Put an interrupt of the source box on hold. -/
def holdIrq (sys : Platform) (s : State) (irq : Irq) (state : VirqState) : Irq × VirqState :=
  (((irq.setPriorityNs sys s.prioBits s.minPriority).disableNs).clearTargetState,
    {state with enabled := irq.getEnableNs, priority := irq.getPriorityNs s.prioBits})

/-- Re-enable an interrupt of the destination box. -/
def resumeIrq (sys : Platform) (s : State) (irq : Irq) (state : VirqState) : Irq :=
  let irq := irq.setTargetState
  let irq := if state.enabled then irq.enableNs else irq
  irq.setPriorityNs sys s.prioBits state.priority

/-- What a switch does to one interrupt and to its saved state. -/
def switchIrq (sys : Platform) (s : State) (srcId dstId : ℕ) (irq : Irq) (state : VirqState) :
    Irq × VirqState :=
  let held := if state.boxId = srcId then holdIrq sys s irq state else (irq, state)
  (if held.2.boxId = dstId then resumeIrq sys s held.1 held.2 else held.1, held.2)

/-- One pass of the loop of virq_switch, which also finds out whether the source
box was in an interrupt. -/
def switchBody (sys : Platform) (srcId dstId : ℕ) (loop : State × Bool) (irqn : ℕ) :
    State × Bool :=
  let s := loop.1
  let irq := s.nvic irqn
  let state := s.states irqn
  let out := switchIrq sys s srcId dstId irq state
  ({s with
    nvic := Function.update s.nvic irqn out.1
    states := Function.update s.states irqn out.2},
    loop.2 || state.boxId = srcId && irq.getActiveNs)

/-- virq_copy_systick_ns. -/
def virqCopySystickNs (boxId : ℕ) (s : State) : Bool × State :=
  let e := s.exceptions
  let saved : SystickState :=
    ⟨e.ctrl, e.load, e.systickPending, e.systickActive, priorityOf s.prioBits e.systickShpr⟩
  (saved.active, {s with systick := Function.update s.systick boxId saved})

/-- virq_load_systick_ns. A pending bit is cleared in a value that has just
been read, so it is also set if it was. -/
def virqLoadSystickNs (sys : Platform) (boxId : ℕ) (s : State) : State :=
  let saved := s.systick boxId
  let pending := saved.pending || s.exceptions.systickPending && sys.pendsAfterBoth
  {s with exceptions := {s.exceptions with
    load := saved.load
    val := 0
    ctrl := saved.ctrl
    systickPending := pending
    systickActive := saved.active
    systickShpr := writeIpr sys (iprOf s.prioBits saved.priority)}}

/-- virq_copy_svcall_ns. -/
def virqCopySvcallNs (boxId : ℕ) (s : State) : Bool × State :=
  let e := s.exceptions
  let saved : SvcallState := ⟨e.svcallActive, e.svcallPending, priorityOf s.prioBits e.svcallShpr⟩
  (saved.active, {s with svcall := Function.update s.svcall boxId saved})

/-- virq_load_svcall_ns. -/
def virqLoadSvcallNs (sys : Platform) (boxId : ℕ) (s : State) : State :=
  let saved := s.svcall boxId
  {s with exceptions := {s.exceptions with
    svcallPending := saved.pending
    svcallActive := saved.active
    svcallShpr := writeIpr sys (iprOf s.prioBits saved.priority)}}

/-- virq_switch. -/
def virqSwitch (sys : Platform) (srcId dstId : ℕ) (s : State) : State :=
  let loop := (List.range sys.nvicVectors).foldl (switchBody sys srcId dstId) (s, false)
  let systick := virqCopySystickNs srcId loop.1
  let svcall := virqCopySvcallNs srcId (virqLoadSystickNs sys dstId systick.2)
  let s := virqLoadSvcallNs sys dstId svcall.2
  {s with boxInActiveIrq :=
    Function.update s.boxInActiveIrq srcId (loop.2 || systick.1 || svcall.1)}

end Uvisor.SecureVirq
