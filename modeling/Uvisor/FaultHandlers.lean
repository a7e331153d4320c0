import Uvisor.BusRecovery
import Uvisor.DebugBox

/-!
# Handlers of system exceptions

Every system exception ends in one handler of the port. The handler recovers
from the fault and returns to the code that has faulted, or it halts. A halt
that enters the debug box may go on, and then it depends on the value with which
the handler returns whether the debug box runs next. Whatever the handlers do to
the memory protection and to the debug box are steps of these two.
-/

namespace Uvisor.FaultHandlers

open Execution DebugBox
open Context (Word)
open BoxInit (vmpuPublicFlashAddr)
open BusRecovery (Bus Instruction uvisorNopCnt cntMaxFor scanOpcodes unprivWrite Emulated)

/-! ## Exceptions -/

/-- The system exceptions that have a name. -/
inductive SystemIrq where
  | nonMaskableInt
  | hardFault
  | memoryManagement
  | busFault
  | usageFault
  | secureFault
  | svCall
  | debugMonitor
  | pendSv
  | sysTick
  deriving DecidableEq

/-- Their numbers. -/
def SystemIrq.irqn : SystemIrq → ℤ
  | .nonMaskableInt => -14
  | .hardFault => -13
  | .memoryManagement => -12
  | .busFault => -11
  | .usageFault => -10
  | .secureFault => -9
  | .svCall => -5
  | .debugMonitor => -4
  | .pendSv => -2
  | .sysTick => -1

/-- The number of an exception, from IPSR. -/
def irqnOf (ipsr : Word) : ℤ := (ipsr &&& 0x1FF).toNat-16

/-- The exception with a number. -/
def systemIrq (irqn : ℤ) : Option SystemIrq :=
  [.nonMaskableInt, .hardFault, .memoryManagement, .busFault, .usageFault, .secureFault, .svCall,
    .debugMonitor, .pendSv, .sysTick].find? fun irq => irq.irqn = irqn

/-- What an exception brings about: the number in IPSR, the value to return
with, the main stack, and what it reports in the registers for its kind. -/
structure Exception where
  /-- __get_IPSR(). -/
  ipsr : Word
  /-- EXC_RETURN. -/
  lr : Word
  /-- The main stack pointer. -/
  msp : Word
  /-- New bits in the fault status. -/
  status : Word
  /-- The fault address. -/
  address : Word

/-- EXC_FROM_NP. -/
def excFromNp (lr : Word) : Bool := lr &&& 0x8 != 0

/-- EXC_FROM_PSP. -/
def excFromPsp (lr : Word) : Bool := lr &&& 0x4 != 0

/-- PERMISSION_DENIED. -/
def permissionDenied : HaltError := 1

/-- NOT_IMPLEMENTED. -/
def notImplemented : HaltError := 3

/-- FAULT_USAGE. -/
def faultUsage : HaltError := 7

/-- FAULT_HARD. -/
def faultHard : HaltError := 8

/-- FAULT_DEBUG. -/
def faultDebug : HaltError := 9

/-- What all handlers halt with in exceptions that none of them recovers from. -/
def haltReason : Option SystemIrq → HaltError
  | some .nonMaskableInt | some .svCall | some .pendSv | some .sysTick => notImplemented
  | some .hardFault => faultHard
  | some .usageFault => faultUsage
  | some .debugMonitor => faultDebug
  | _ => notAllowed

/-! ## The parts of a port -/

/-- The memory protection of a port and its device. -/
structure Port (υ α : Type) where
  /-- Boxes, flash and the debug box. -/
  device : Device
  /-- One step of the memory protection. -/
  step : υ → α → Option υ
  /-- Which steps are taken. -/
  Allowed : υ → α → Prop
  /-- g_active_box. -/
  activeBox : υ → ℕ
  /-- The switch to a box, if there is such a box. -/
  switch : ℕ → Option α
  /-- The accesses that the bus and the memory protection let pass. -/
  bus : υ → Bus
  /-- vmpu_fault_find_acl, with the active box. -/
  findAcl : ℕ → Word → Word → Word

/-- A port does what its steps are called. -/
structure Port.Lawful {υ α : Type} (p : Port υ α) : Prop where
  /-- Every switch is taken. -/
  switch_allowed : ∀ {u box a}, p.switch box = some a → p.Allowed u a
  /-- It makes the box active. -/
  switch_activeBox : ∀ {u u' box a}, p.switch box = some a → p.step u a = some u' →
    p.activeBox u' = box

/-- A system with fault registers. -/
structure State (υ ρ : Type) where
  /-- The memory protection and the page heap. -/
  unit : υ
  /-- Contexts, memory and the debug box. -/
  debug : DebugBox.State
  /-- Privileged accesses that have been carried out for boxes. -/
  executed : List (Instruction × Word)
  /-- Registers for faults. -/
  registers : ρ

/-- How a part of a handler ends. -/
inductive Outcome (υ ρ β : Type) where
  /-- The monitor loops forever. -/
  | loops
  /-- An access or a check inside of a recovery does not come back. -/
  | lost
  /-- The debug box runs, and nothing comes after that. -/
  | handles (s : State υ ρ)
  /-- The handler goes on. -/
  | goesOn (value : β) (s : State υ ρ)

section Parts

variable {υ α ρ β γ : Type}

/-- What comes next happens only if the handler goes on. -/
def Outcome.andThen (o : Outcome υ ρ β) (rest : β → State υ ρ → Outcome υ ρ γ) :
    Outcome υ ρ γ :=
  match o with
  | .loops => .loops
  | .lost => .lost
  | .handles s => .handles s
  | .goesOn value s => rest value s

/-- The state in which something still runs. -/
def Outcome.state : Outcome υ ρ β → Option (State υ ρ)
  | .loops | .lost => none
  | .handles s | .goesOn _ s => some s

/-- The memory protection follows when another box has become active. -/
def Port.follow (p : Port υ α) (debug : DebugBox.State) (s : State υ ρ) : Option (State υ ρ) :=
  if debug.ctx.activeBox = s.debug.ctx.activeBox then some {s with debug}
  else ((p.switch debug.ctx.activeBox).bind fun a => p.step s.unit a).map fun unit =>
    {s with unit, debug}

/-- HALT_ERROR. A switch that fails halts again, which loops. -/
def Port.haltError (p : Port υ α) (reason : HaltError) (s : State υ ρ) : Outcome υ ρ Unit :=
  match debugHaltError p.device reason s.debug with
  | .loops | .reboots => .loops
  | .goesOn debug => match p.follow debug s with
    | none => .loops
    | some t => .goesOn () t
  | .handles debug => match p.follow debug s with
    | none => .loops
    | some t => .handles t

/-- HALT_ERROR where a check fails. -/
def Port.haltUnless (p : Port υ α) (check : Bool) (reason : HaltError) (s : State υ ρ) :
    Outcome υ ρ Unit :=
  if check then .goesOn () s else p.haltError reason s

/-- debug_box_enter_from_priv. -/
def debugBoxEnterFromPriv (lr : Word) : Word := if excFromNp lr then lr else 0xFFFFFFFD

/-- The stacked program counter, read with the rights of the box that has
faulted or from the stack of the monitor. -/
def Port.readPc (p : Port υ α) (unpriv : Bool) (sp msp : Word) (s : State υ ρ) :
    Outcome υ ρ Word :=
  if unpriv then
    if (p.bus s.unit).reads (sp+24) 4 then .goesOn (s.debug.mem (sp+24)) s else .lost
  else .goesOn (s.debug.mem (msp+24)) s

/-- Bytes of a memory of words. -/
def bytesOf (mem : Interrupts.Memory) : ByteMemory.Memory 32 := fun address =>
  (mem (BitVec.ofNat 32 (address.toNat/4*4))).extractLsb' (8*(address.toNat%4)) 8

/-- A memory of words whose words are those of a memory of bytes. -/
def wordsOf (mem : Interrupts.Memory) (bytes : ByteMemory.Memory 32) : Interrupts.Memory :=
  fun address => if address.toNat%4 = 0 then ByteMemory.read bytes address 4 else mem address

/-- What vmpu_fault_recovery_bus does after its first check. -/
def recoverBusFrom (findAcl : Word → Word → Word) (bus : Bus) (pc sp faultStatus : Word)
    (s : BusRecovery.State) : Option (ℤ × BusRecovery.State) :=
  match cntMaxFor faultStatus with
  | none => some (-1, s)
  | some cntMax =>
    (scanOpcodes findAcl bus pc sp cntMax (cntMax+1) 0 s).bind fun
      | (none, s) => some (-1, s)
      | (some cnt, s) =>
        (unprivWrite bus s (sp+24) (pc+(BitVec.ofNat 32 (uvisorNopCnt+2-cnt) <<< 1))).map fun s =>
          (0, s)

/-- The rest of vmpu_fault_recovery_bus, with the rights of the active box. -/
def Port.emulateBus (p : Port υ α) (pc sp faultStatus : Word) (s : State υ ρ) : Outcome υ ρ ℤ :=
  match recoverBusFrom (p.findAcl (p.activeBox s.unit)) (p.bus s.unit) pc sp faultStatus
      ⟨bytesOf s.debug.mem, s.executed⟩ with
  | none => .lost
  | some (code, t) =>
    .goesOn code {s with
      debug := {s.debug with mem := wordsOf s.debug.mem t.mem}, executed := t.executed}

/-- vmpu_fault_recovery_bus. If its check fails and the halt goes on, it looks
for an access that the debug box may make, since that is then the active box. -/
def Port.recoverBus (p : Port υ α) (pc sp faultStatus : Word) (s : State υ ρ) :
    Outcome υ ρ ℤ :=
  (p.haltUnless (vmpuPublicFlashAddr p.device.sys pc) notAllowed s).andThen fun _ s =>
    p.emulateBus pc sp faultStatus s

end Parts

/-! ## Runs with exceptions -/

/-- What happens in the system. -/
inductive Action (α ε : Type) where
  /-- Anything that the memory protection does in the active box. -/
  | unit (a : α)
  /-- Anything that the debug box and the contexts do, switches included. -/
  | debug (a : DebugBox.Action)
  /-- A system exception. -/
  | exception (e : ε)

section Runs

variable {υ α ρ ε : Type}

/-- One step. There is no result when nothing runs any more. -/
def step (p : Port υ α) (handler : ε → State υ ρ → Outcome υ ρ Word) (s : State υ ρ) :
    Action α ε → Option (State υ ρ)
  | .unit a => (p.step s.unit a).map fun unit => {s with unit}
  | .debug a => (DebugBox.step p.device s.debug a).bind fun debug => p.follow debug s
  | .exception e => (handler e s).state

/-- The steps of the memory protection are allowed, and those outside of a
switch leave the active box as it is. -/
def Allowed (p : Port υ α) (s : State υ ρ) : Action α ε → Prop
  | .unit a => p.Allowed s.unit a ∧
      ∀ box ∈ (p.step s.unit a).map p.activeBox, box = p.activeBox s.unit
  | _ => True

/-- Both parts have booted, with the same active box and clear registers. -/
structure Initial (p : Port υ α) (init : υ → Prop) (Clear : ρ → Prop) (s : State υ ρ) :
    Prop where
  /-- The memory protection. -/
  unit : init s.unit
  /-- The debug box. -/
  debug : DebugBox.Initial s.debug
  /-- The active box. -/
  activeBox : s.debug.ctx.activeBox = p.activeBox s.unit
  /-- No fault has been reported. -/
  registers : Clear s.registers
  /-- No access has been carried out for a box. -/
  executed : s.executed = []

/-- From one state to another one by steps of the memory protection and by steps
of the debug box. -/
structure Leads (p : Port υ α) (s t : State υ ρ) : Prop where
  /-- The memory protection. -/
  unit : Reachable (fun u => u = s.unit) p.step p.Allowed t.unit
  /-- The debug box. -/
  debug : Reachable (fun b => b = s.debug) (DebugBox.step p.device) (fun _ _ => True) t.debug
  /-- The active box. -/
  activeBox : t.debug.ctx.activeBox = p.activeBox t.unit

/-- Whatever state is left is led to. -/
def Outcome.Sound {β : Type} (o : Outcome υ ρ β) (p : Port υ α) (s : State υ ρ) : Prop :=
  ∀ t, o.state = some t → Leads p s t

/-! ## Every part of a handler is sound -/

variable {β γ : Type} {p : Port υ α} {s t u : State υ ρ}

theorem Leads.refl (h : s.debug.ctx.activeBox = p.activeBox s.unit) : Leads p s s :=
  ⟨.start rfl, .start rfl, h⟩

theorem Leads.trans (h : Leads p s t) (h' : Leads p t u) : Leads p s u :=
  ⟨h.unit.trans h'.unit, h.debug.trans h'.debug, h'.activeBox⟩

/-- Memory that is written and accesses that are counted are no steps of the
memory protection. -/
theorem Leads.setMemory (h : Leads p s t) (mem : Interrupts.Memory)
    (executed : List (Instruction × Word)) (registers : ρ) :
    Leads p s ⟨t.unit, {t.debug with mem}, executed, registers⟩ :=
  ⟨h.unit, h.debug.step (a := .others t.debug.ctx mem t.debug.basepri t.debug.osSuspended) trivial
    rfl, h.activeBox⟩

theorem Leads.setRegisters (h : Leads p s t) (registers : ρ) :
    Leads p s {t with registers} :=
  ⟨h.unit, h.debug, h.activeBox⟩

theorem sound_goesOn (h : Leads p s t) (value : β) : (Outcome.goesOn value t).Sound p s := by
  intro t' ht
  obtain rfl := Option.some.inj ht
  exact h

theorem sound_lost : (Outcome.lost : Outcome υ ρ β).Sound p s := fun _ ht => by cases ht

theorem sound_loops : (Outcome.loops : Outcome υ ρ β).Sound p s := fun _ ht => by cases ht

theorem sound_andThen {o : Outcome υ ρ β} {rest : β → State υ ρ → Outcome υ ρ γ}
    (h : o.Sound p s) (hrest : ∀ value t, Leads p s t → (rest value t).Sound p s) :
    (o.andThen rest).Sound p s := by
  cases o with
  | loops => exact sound_loops
  | lost => exact sound_lost
  | handles t => exact fun t' ht => h t' ht
  | goesOn value t => exact hrest value t (h t rfl)

/-- The memory protection has followed a run of the debug box. -/
theorem leads_follow (hp : p.Lawful) (h : Leads p s t) {debug : DebugBox.State}
    (hdebug : Reachable (fun b => b = t.debug) (DebugBox.step p.device) (fun _ _ => True) debug)
    (hfollow : p.follow debug t = some u) : Leads p s u := by
  refine h.trans ?_
  unfold Port.follow at hfollow
  split_ifs at hfollow with hsame
  · obtain rfl := Option.some.inj hfollow
    exact ⟨.start rfl, hdebug, hsame.trans h.activeBox⟩
  · obtain ⟨unit, hunit, rfl⟩ := Option.map_eq_some_iff.mp hfollow
    obtain ⟨a, ha, hstep⟩ := Option.bind_eq_some_iff.mp hunit
    exact ⟨.step (.start rfl) (hp.switch_allowed ha) hstep, hdebug,
      (hp.switch_activeBox ha hstep).symm⟩

/-- A halt is a step of the debug box. -/
theorem reachable_haltError {d : Device} {reason : HaltError} {b b' : DebugBox.State}
    (h : (debugHaltError d reason b).state = some b') :
    Reachable (fun x => x = b) (DebugBox.step d) (fun _ _ => True) b' :=
  .step (a := .haltError reason) (.start rfl) trivial h

theorem sound_haltError (hp : p.Lawful) (h : Leads p s t) (reason : HaltError) :
    (p.haltError reason t).Sound p s := by
  intro u hu
  unfold Port.haltError at hu
  cases hhalt : debugHaltError p.device reason t.debug with
  | loops | reboots =>
    rw [hhalt] at hu
    cases hu
  | goesOn debug | handles debug =>
    rw [hhalt] at hu
    dsimp only at hu
    cases hfollow : p.follow debug t with
    | none =>
      rw [hfollow] at hu
      cases hu
    | some v =>
      rw [hfollow] at hu
      obtain rfl := Option.some.inj hu
      exact leads_follow hp h (reachable_haltError (by rw [hhalt]; rfl)) hfollow

theorem sound_haltUnless (hp : p.Lawful) (h : Leads p s t) (check : Bool) (reason : HaltError) :
    (p.haltUnless check reason t).Sound p s := by
  unfold Port.haltUnless
  split_ifs
  · exact sound_goesOn h ()
  · exact sound_haltError hp h reason

theorem sound_readPc (h : Leads p s t) (unpriv : Bool) (sp msp : Word) :
    (p.readPc unpriv sp msp t).Sound p s := by
  unfold Port.readPc
  split_ifs
  · exact sound_goesOn h _
  · exact sound_lost
  · exact sound_goesOn h _

theorem sound_recoverBus (hp : p.Lawful) (h : Leads p s t) (pc sp faultStatus : Word) :
    (p.recoverBus pc sp faultStatus t).Sound p s := by
  refine sound_andThen (sound_haltUnless hp h _ _) fun _ t h => ?_
  unfold Port.emulateBus
  cases recoverBusFrom (p.findAcl (p.activeBox t.unit)) (p.bus t.unit) pc sp faultStatus
      ⟨bytesOf t.debug.mem, t.executed⟩ with
  | none => exact sound_lost
  | some result => exact sound_goesOn (h.setMemory _ _ _) _

/-! ## Every run -/

/-- What holds in a run with exceptions. -/
structure Refines (p : Port υ α) (init : υ → Prop) (s : State υ ρ) : Prop where
  /-- The memory protection is in one of its runs. -/
  unit : Reachable init p.step p.Allowed s.unit
  /-- So is the debug box. -/
  debug : Reachable DebugBox.Initial (DebugBox.step p.device) (fun _ _ => True) s.debug
  /-- Both have the same active box. -/
  activeBox : s.debug.ctx.activeBox = p.activeBox s.unit

theorem Refines.leads {init : υ → Prop} (h : Refines p init s) (h' : Leads p s t) :
    Refines p init t :=
  ⟨h.unit.trans h'.unit, h.debug.trans h'.debug, h'.activeBox⟩

/-- With a sound handler, a run with exceptions consists of a run of the memory
protection and a run of the debug box. -/
theorem refines_reachable {handler : ε → State υ ρ → Outcome υ ρ Word} {init : υ → Prop}
    {Clear : ρ → Prop} (hp : p.Lawful)
    (hhandler : ∀ e s, s.debug.ctx.activeBox = p.activeBox s.unit → (handler e s).Sound p s)
    (h : Reachable (Initial p init Clear) (step p handler) (Allowed p) s) : Refines p init s := by
  refine h.invariant (Refines p init) (fun s hinit => ?_) fun s a t hrefines ha hs => ?_
  · exact ⟨.start hinit.unit, .start hinit.debug, hinit.activeBox⟩
  · refine hrefines.leads ?_
    have hself := Leads.refl hrefines.activeBox
    cases a with
    | unit a =>
      obtain ⟨hallowed, hkept⟩ := ha
      obtain ⟨unit, hunit, rfl⟩ := Option.map_eq_some_iff.mp hs
      have hsame := hkept (p.activeBox unit) (by rw [hunit]; rfl)
      exact ⟨.step (.start rfl) hallowed hunit, .start rfl, hrefines.activeBox.trans hsame.symm⟩
    | debug a =>
      obtain ⟨debug, hdebug, hfollow⟩ := Option.bind_eq_some_iff.mp hs
      exact leads_follow hp hself (.step (.start rfl) trivial hdebug) hfollow
    | exception e => exact hhandler e s hrefines.activeBox t hs

end Runs

/-! ## Halts inside of a handler -/

section Halts

variable {υ α ρ : Type} {p : Port υ α} {s t : State υ ρ}

/-- A halt has entered the debug box. -/
structure Entered (p : Port υ α) (reason : HaltError) (s t : State υ ρ) : Prop where
  /-- The halt does not loop. -/
  entered : debugHaltError p.device reason s.debug = entered p.device t.debug
  /-- It is the first one, and the handler of the debug box has been called. -/
  handled : Handled p.device reason s.debug t.debug
  /-- The memory protection has followed. -/
  follow : p.follow t.debug s = some t

theorem follow_debug {debug : DebugBox.State} (h : p.follow debug s = some t) :
    t.debug = debug := by
  unfold Port.follow at h
  split_ifs at h
  · rw [← Option.some.inj h]
  · obtain ⟨unit, -, rfl⟩ := Option.map_eq_some_iff.mp h
    rfl

/-- How a halt ends that has entered the debug box. -/
def enteredOutcome (p : Port υ α) (t : State υ ρ) : Outcome υ ρ Unit :=
  match p.device.core with
  | .armv7m => .goesOn () t
  | .armv8m => .handles t

theorem Entered.outcome {reason : HaltError} (h : Entered p reason s t) :
    p.haltError reason s = enteredOutcome p t := by
  unfold Port.haltError enteredOutcome
  rw [h.entered, DebugBox.entered]
  cases p.device.core <;> dsimp only <;> rw [h.follow]

/-- A halt enters the debug box, or it loops. -/
theorem haltError_cases (p : Port υ α) (reason : HaltError) (s : State υ ρ) :
    ((∀ t, ¬Entered p reason s t) ∧ p.haltError reason s = .loops) ∨
      ∃ t, Entered p reason s t ∧ p.haltError reason s = enteredOutcome p t := by
  by_cases hentered : ∃ t, Entered p reason s t
  · obtain ⟨t, ht⟩ := hentered
    exact .inr ⟨t, ht, ht.outcome⟩
  push Not at hentered
  refine .inl ⟨hentered, ?_⟩
  unfold Port.haltError
  rcases debugHaltError_cases p.device reason s.debug with ⟨-, hloops⟩ | ⟨debug, hdebug, hhandled⟩
  · rw [hloops]
  have hfollow : p.follow debug s = none := by
    cases hfollow : p.follow debug s with
    | none => rfl
    | some t =>
      obtain rfl := follow_debug hfollow
      exact absurd ⟨hdebug, hhandled, hfollow⟩ (hentered t)
  rw [hdebug, entered]
  cases p.device.core <;> dsimp only <;> rw [hfollow]

/-- After the first halt every other one loops. -/
theorem Entered.haltError {reason : HaltError} (h : Entered p reason s t) (reason' : HaltError) :
    p.haltError reason' t = .loops := by
  unfold Port.haltError
  rw [debugHaltError_loops h.handled.not_enterable]

/-- Before the first halt of a step there was none before it. -/
theorem not_once_of_step {d : Device} {b b' : DebugBox.State} {a : DebugBox.Action}
    (h : DebugBox.step d b a = some b') (hfirst : b'.debuggedOnceBefore = false) :
    b.debuggedOnceBefore = false := by
  cases changes_step h with
  | registered driver hinit hvalid hout =>
    subst hout
    exact hfirst
  | replaced driver u hcore hhandled hvalid hout =>
    subst hout
    exact absurd (hfirst.symm.trans hhandled.debuggedOnceBefore) Bool.false_ne_true
  | handled reason hhandled =>
    exact absurd (hfirst.symm.trans hhandled.debuggedOnceBefore) Bool.false_ne_true
  | kept hbox honce => exact honce.symm.trans hfirst

/-- With this value an exception returns to the process stack in thread mode. -/
def ReturnsToThread (lr : Word) : Prop := excFromNp lr = true ∧ excFromPsp lr = true

/-- Privileged code is left for the process stack. -/
theorem returnsToThread_enterFromPriv {lr : Word} :
    ReturnsToThread (debugBoxEnterFromPriv lr) ↔ (excFromNp lr = true → excFromPsp lr = true) := by
  unfold debugBoxEnterFromPriv
  split_ifs with h
  · simp [ReturnsToThread, h]
  · exact ⟨fun _ hnp => absurd hnp h, fun _ => ⟨by decide, by decide⟩⟩

end Halts

/-! ## Recoveries from bus faults -/

/-- Bytes of a word in a memory of words. -/
theorem bytesOf_word (mem : Interrupts.Memory) {address : Word} (haligned : address.toNat%4 = 0)
    {i : ℕ} (hi : i < 4) :
    bytesOf mem (address+BitVec.ofNat 32 i) = (mem address).extractLsb' (8*i) 8 := by
  have hlt := address.isLt
  have hnat : (address+BitVec.ofNat 32 i).toNat = address.toNat+i := by
    rw [BitVec.toNat_add, BitVec.toNat_ofNat]
    omega
  have hword : (address.toNat+i)/4*4 = address.toNat := by omega
  have hbyte : (address.toNat+i)%4 = i := by omega
  rw [bytesOf, hnat, hword, hbyte, BitVec.ofNat_toNat, BitVec.setWidth_eq]

/-- A memory that is taken apart and put together again is the same. -/
theorem wordsOf_bytesOf (mem : Interrupts.Memory) : wordsOf mem (bytesOf mem) = mem := by
  funext address
  unfold wordsOf
  split_ifs with haligned
  · ext j hj
    rw [← BitVec.getLsbD_eq_getElem, ← BitVec.getLsbD_eq_getElem, ByteMemory.getLsbD_read _ _ _ hj,
      bytesOf_word mem haligned (by omega), BitVec.getLsbD_extractLsb', Nat.div_add_mod]
    simp [hj, Nat.mod_lt]
  · rfl

section BusRecoveries

variable {υ α ρ : Type} {findAcl : Word → Word → Word} {bus : Bus} {pc sp faultStatus : Word}
  {s t : BusRecovery.State} {code : ℤ}

/-- A configuration with nothing but public flash. -/
def allPublic : BoxEnumeration.UvisorConfig :=
  {BoxAgreement.threeConfigs 64 4096 with flashStart := 0, secureStart := 3}

theorem allPublic_addr (addr : Word) :
    BoxEnumeration.publicFlashAddr allPublic addr.toNat = true := by
  have hlt := addr.isLt
  have hlast : PageAllocator.wordSub 3 4 = 2^32-1 := by decide
  change (decide (0 ≤ addr.toNat) && decide (addr.toNat ≤ PageAllocator.wordSub 3 4)) = true
  rw [hlast]
  simp
  omega

/-- The rest of a recovery is what a recovery does where its check passes. -/
theorem recoverBusFrom_spec (h : recoverBusFrom findAcl bus pc sp faultStatus s = some (code, t)) :
    (code = 0 ∧ ∃ i instruction, Emulated findAcl pc sp faultStatus s t i instruction) ∨
      (code = -1 ∧ t = s) := by
  refine @BusRecovery.recovery_spec findAcl bus allPublic pc sp 0 faultStatus s t code ?_
  unfold BusRecovery.vmpuFaultRecoveryBus
  rw [allPublic_addr]
  exact h

/-- It comes back unless the bus refuses an access. -/
theorem recoverBusFrom_returns (h : BusRecovery.Open bus) (s : BusRecovery.State) :
    (recoverBusFrom findAcl bus pc sp faultStatus s).isSome = true := by
  have hreturns := @BusRecovery.recovery_returns findAcl bus allPublic pc sp 0 faultStatus h
    (allPublic_addr pc) s
  unfold BusRecovery.vmpuFaultRecoveryBus at hreturns
  rw [allPublic_addr] at hreturns
  exact hreturns

/-- One access has been emulated with the rights of the active box, and the
memory has the words that it has left. -/
def EmulatedIn (p : Port υ α) (pc sp faultStatus : Word) (s t : State υ ρ) : Prop :=
  ∃ i instruction after,
    Emulated (p.findAcl (p.activeBox s.unit)) pc sp faultStatus
      ⟨bytesOf s.debug.mem, s.executed⟩ after i instruction ∧
    t = {s with
      debug := {s.debug with mem := wordsOf s.debug.mem after.mem}, executed := after.executed}

/-- An access is refused by the bus, nothing is emulated, or one access is. -/
theorem emulateBus_cases (p : Port υ α) (pc sp faultStatus : Word) (s : State υ ρ) :
    (p.emulateBus pc sp faultStatus s = .lost ∧ ¬BusRecovery.Open (p.bus s.unit)) ∨
      p.emulateBus pc sp faultStatus s = .goesOn (-1) s ∨
      ∃ t, EmulatedIn p pc sp faultStatus s t ∧ p.emulateBus pc sp faultStatus s = .goesOn 0 t := by
  unfold Port.emulateBus
  cases hrecover : recoverBusFrom (p.findAcl (p.activeBox s.unit)) (p.bus s.unit) pc sp faultStatus
      ⟨bytesOf s.debug.mem, s.executed⟩ with
  | none =>
    refine .inl ⟨rfl, fun hopen => ?_⟩
    have hreturns := @recoverBusFrom_returns (p.findAcl (p.activeBox s.unit)) _ pc sp faultStatus
      hopen ⟨bytesOf s.debug.mem, s.executed⟩
    rw [hrecover] at hreturns
    cases hreturns
  | some result =>
    obtain ⟨code, after⟩ := result
    rcases recoverBusFrom_spec hrecover with ⟨rfl, i, instruction, hemulated⟩ | ⟨rfl, rfl⟩
    · exact .inr (.inr ⟨_, ⟨i, instruction, after, hemulated, rfl⟩, rfl⟩)
    · refine .inr (.inl ?_)
      dsimp only
      rw [wordsOf_bytesOf]

end BusRecoveries

end Uvisor.FaultHandlers
