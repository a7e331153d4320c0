import Uvisor.FaultHandlers
import Uvisor.MpuIsolation

/-!
# Faults on ARMv7-M

The handler of system exceptions recovers from faults of the memory protection
and from bus faults of boxes, and it halts in all other cases. A run with
exceptions is a run of the memory protection together with a run of the debug
box. Every exception is settled in one of a few ways, and a fault of the memory
protection is judged by its own status alone.
-/

namespace Uvisor.MpuFaults

open Execution FaultHandlers PageAllocator
open Context (Word)
open BoxInit (vmpuPublicFlashAddr)
open DebugBox (Device HaltError notAllowed)
open BusRecovery (Bus Instruction Emulated scbScr physicalAddr vmpuFaultFindAcl)
open AclSlices (boxRegions inRange)
open ArmMpu (Config cfsrStacking vmpuFaultRecoveryMpu)
open MpuIsolation (Isolated)

/-! ## The handler -/

/-- Constants of a booted system. -/
structure Platform where
  /-- Boxes, flash and the debug box. -/
  device : Device
  /-- Regions of the boxes. -/
  cfg : Config
  /-- The page heap. -/
  g : Geometry
  /-- The table of the regions. -/
  table : BoxMemory.Table
  /-- The accesses that the bus and the memory protection let pass. -/
  bus : ArmMpu.State → Bus
  /-- The device has the right core. -/
  core : device.core = .armv7m
  /-- Both have the same boxes. -/
  boxCount : cfg.boxCount = device.sys.boxCount
  /-- The table has their regions. -/
  regions : ∀ box, cfg.regions box = boxRegions table box.val

/-- The memory protection unit as a port. -/
def Platform.port (sys : Platform) : Port ArmMpu.State MpuIsolation.Action where
  device := sys.device
  step := MpuIsolation.step sys.cfg sys.g
  Allowed _ _ := True
  activeBox unit := unit.activeBox.val
  switch box := if h : box < maxBoxes then some (.switch ⟨box, h⟩) else none
  bus := sys.bus
  findAcl := vmpuFaultFindAcl sys.table

/-- Registers for faults. A status register is cleared by writing its bits. -/
structure Registers where
  /-- VMPU_SCB_MMFSR. -/
  mmfsr : BitVec 8
  /-- SCB->MMFAR. -/
  mmfar : Word
  /-- VMPU_SCB_BFSR. -/
  bfsr : BitVec 8
  /-- SCB->BFAR. -/
  bfar : Word

/-- A system with this handler. -/
abbrev System := State ArmMpu.State Registers

/-- What the processor reports for an exception. -/
def report (e : Exception) (s : System) : System :=
  match systemIrq (irqnOf e.ipsr) with
  | some .memoryManagement =>
    {s with registers := {s.registers with
      mmfsr := s.registers.mmfsr ||| e.status.setWidth 8, mmfar := e.address}}
  | some .busFault =>
    {s with registers := {s.registers with
      bfsr := s.registers.bfsr ||| e.status.setWidth 8, bfar := e.address}}
  | _ => s

/-- Write VMPU_SCB_MMFSR. -/
def writeMmfsr (value : Word) (s : System) : System :=
  {s with registers := {s.registers with mmfsr := s.registers.mmfsr &&& ~~~(value.setWidth 8)}}

/-- Write VMPU_SCB_BFSR. -/
def writeBfsr (value : Word) (s : System) : System :=
  {s with registers := {s.registers with bfsr := s.registers.bfsr &&& ~~~(value.setWidth 8)}}

/-- The stack pointer of the code that was interrupted. -/
def stackPointer (e : Exception) (s : System) : Word :=
  if excFromPsp e.lr then s.debug.ctx.psp else e.msp

/-- The address of a fault of the memory protection. The stacked program counter
is read on the way, unless the stack is at fault. -/
def faultAddr (sys : Platform) (e : Exception) (sp faultStatus : Word) (s : System) :
    Outcome ArmMpu.State Registers Word :=
  if faultStatus &&& cfsrStacking ≠ 0 then .goesOn sp s
  else (sys.port.readPc (excFromPsp e.lr) sp e.msp s).andThen fun _ s =>
    .goesOn s.registers.mmfar s

/-- vmpu_sys_mux_handler, with the value that it returns. -/
def vmpuSysMuxHandler (sys : Platform) (e : Exception) (s : System) :
    Outcome ArmMpu.State Registers Word :=
  let sp := stackPointer e s
  match systemIrq (irqnOf e.ipsr) with
  | some .hardFault => (sys.port.haltError faultHard s).andThen fun _ s =>
      .goesOn (debugBoxEnterFromPriv e.lr) s
  | some .memoryManagement =>
    let faultStatus : Word := s.registers.mmfsr.setWidth 32
    (faultAddr sys e sp faultStatus s).andThen fun faultAddr s =>
      match vmpuFaultRecoveryMpu sys.cfg sys.g faultAddr faultStatus s.unit with
      | none => .lost
      | some (true, unit) => .goesOn e.lr (writeMmfsr faultStatus {s with unit})
      | some (false, unit) =>
        (sys.port.haltError permissionDenied (writeMmfsr faultStatus {s with unit})).andThen
          fun _ s => .goesOn (debugBoxEnterFromPriv e.lr) s
  | some .busFault =>
    if excFromPsp e.lr then
      (sys.port.readPc true sp e.msp s).andThen fun pc s =>
        let faultStatus : Word := s.registers.bfsr.setWidth 32
        (sys.port.recoverBus pc sp faultStatus s).andThen fun code s =>
          if code = 0 then .goesOn e.lr (writeBfsr faultStatus s)
          else (sys.port.haltError permissionDenied s).andThen fun _ s => .goesOn e.lr s
    else (sys.port.haltError permissionDenied s).andThen fun _ s => .goesOn e.lr s
  | irq => (sys.port.haltError (haltReason irq) s).andThen fun _ s => .goesOn e.lr s

/-- An exception that is reported and handled. -/
def handle (sys : Platform) (e : Exception) (s : System) : Outcome ArmMpu.State Registers Word :=
  vmpuSysMuxHandler sys e (report e s)

/-- No fault has been reported. -/
def Registers.Clear (r : Registers) : Prop := r.mmfsr = 0 ∧ r.bfsr = 0

/-- States that a run with exceptions reaches. -/
def Reached (sys : Platform) (s : System) : Prop :=
  Reachable (FaultHandlers.Initial sys.port (MpuIsolation.Initial sys.cfg sys.g) Registers.Clear)
    (FaultHandlers.step sys.port (handle sys)) (Allowed sys.port) s

/-! ## How exceptions are settled -/

/-- The new bits of the status. -/
def newStatus (e : Exception) : Word := (e.status.setWidth 8).setWidth 32

/-- The address that the handler takes for that of a fault of the memory
protection. -/
def faultAddress (e : Exception) (s : System) : Word :=
  if newStatus e &&& cfsrStacking ≠ 0 then stackPointer e s else e.address

/-- The memory protection after it has recovered from its fault. -/
def recoveredFrom (sys : Platform) (e : Exception) (s : System) : Option ArmMpu.State :=
  MpuIsolation.step sys.cfg sys.g s.unit (.fault (faultAddress e s) (newStatus e))

/-- The status that the handler sees in a bus fault. -/
def busStatus (e : Exception) (s : System) : Word := (report e s).registers.bfsr.setWidth 32

/-- The program counter on the stack of the box. -/
def stackedPc (s : System) : Word := s.debug.mem (s.debug.ctx.psp+24)

/-- What the handler halts with. -/
def reasonFor (e : Exception) : HaltError :=
  match systemIrq (irqnOf e.ipsr) with
  | some .memoryManagement | some .busFault => permissionDenied
  | irq => haltReason irq

/-- What the handler returns with after a halt. -/
def returnFor (e : Exception) : Word :=
  match systemIrq (irqnOf e.ipsr) with
  | some .hardFault | some .memoryManagement => debugBoxEnterFromPriv e.lr
  | _ => e.lr

/-- The debug box runs after a halt. -/
def Continues (e : Exception) : Prop :=
  match systemIrq (irqnOf e.ipsr) with
  | some .hardFault | some .memoryManagement => excFromNp e.lr = true → excFromPsp e.lr = true
  | _ => ReturnsToThread e.lr

/-- One access of a box has been carried out in a bus fault, with the rights of
the active box, and the fault is over. -/
def BusEmulated (sys : Platform) (pc sp status : Word) (s t : System) : Prop :=
  ∃ u, EmulatedIn sys.port pc sp status s u ∧
    t = {u with registers := {u.registers with bfsr := 0}}

/-- An access that a box may make: it is to SCB->SCR, or a region of the box or
of box 0 has the address and the right. -/
def MayMake (sys : Platform) (box : BoxId) (access : Instruction × Word) : Prop :=
  access.2 = scbScr ∨ ∃ owner, (owner = box ∨ owner = 0) ∧ ∃ region ∈ sys.cfg.regions owner,
    inRange (physicalAddr access.2) region = true ∧ region.acl &&& access.1.right ≠ 0

/-- What holds of the status and of the accesses in every run with exceptions. -/
structure Clean (sys : Platform) (s : System) : Prop where
  /-- A fault of the memory protection leaves no status behind. -/
  mmfsr : s.registers.mmfsr = 0
  /-- Nor does a bus fault before the first halt. -/
  bfsr : s.debug.debuggedOnceBefore = false → s.registers.bfsr = 0
  /-- Every access that has been carried out for a box is one that some box may
  make. -/
  executed : ∀ access ∈ s.executed, ∃ box, MayMake sys box access

/-- What holds in every run with exceptions. -/
structure Safe (sys : Platform) (s : System) : Prop extends Clean sys s where
  /-- The memory protection isolates the active box. -/
  isolated : Isolated sys.cfg sys.g s.unit
  /-- That is the active box of the contexts. -/
  activeBox : s.debug.ctx.activeBox = s.unit.activeBox.val
  /-- The debug box is valid. -/
  debug : DebugBox.Inv sys.device s.debug

/-- What becomes of an exception. -/
inductive Settled (sys : Platform) (e : Exception) (s : System) :
    Outcome ArmMpu.State Registers Word → Prop
  /-- The memory protection recovers from its fault, and the code that has
  faulted goes on. -/
  | recovered {unit : ArmMpu.State} (irq : systemIrq (irqnOf e.ipsr) = some .memoryManagement)
      (step : recoveredFrom sys e s = some unit) :
      Settled sys e s (.goesOn e.lr {s with
        unit, registers := {s.registers with mmfsr := 0, mmfar := e.address}})
  /-- A bus fault of a box in public flash has been an access that the box may
  make. -/
  | emulated {t : System} (irq : systemIrq (irqnOf e.ipsr) = some .busFault)
      (box : excFromPsp e.lr = true)
      (flash : vmpuPublicFlashAddr sys.device.sys (stackedPc s) = true)
      (access : BusEmulated sys (stackedPc s) s.debug.ctx.psp (busStatus e s) (report e s) t) :
      Settled sys e s (.goesOn e.lr t)
  /-- The debug box has been entered, and the memory protection has not been able
  to recover. -/
  | halted {registers : Registers} {t : System} (clear : registers.mmfsr = 0)
      (unrecovered : systemIrq (irqnOf e.ipsr) = some .memoryManagement →
        recoveredFrom sys e s = none)
      (h : Entered sys.port (reasonFor e) {s with registers} t)
      (returns : ReturnsToThread (returnFor e) ↔ Continues e) :
      Settled sys e s (.goesOn (returnFor e) t)
  /-- A bus fault of a box outside of public flash has entered the debug box, and
  the access is then one that the debug box may make. -/
  | borrowed {u t : System} (irq : systemIrq (irqnOf e.ipsr) = some .busFault)
      (box : excFromPsp e.lr = true)
      (flash : vmpuPublicFlashAddr sys.device.sys (stackedPc s) = false)
      (h : Entered sys.port notAllowed (report e s) u)
      (access : BusEmulated sys (stackedPc s) s.debug.ctx.psp (busStatus e s) u t) :
      Settled sys e s (.goesOn e.lr t)
  /-- The debug box may not make the access either. -/
  | refused {u : System} (irq : systemIrq (irqnOf e.ipsr) = some .busFault)
      (box : excFromPsp e.lr = true)
      (flash : vmpuPublicFlashAddr sys.device.sys (stackedPc s) = false)
      (h : Entered sys.port notAllowed (report e s) u) : Settled sys e s .loops
  /-- The debug box cannot be entered. -/
  | looped {registers : Registers} {reason : HaltError}
      (h : ∀ t, ¬Entered sys.port reason {s with registers} t) : Settled sys e s .loops
  /-- The bus refuses an access of the handler, which it makes with the rights of
  the box that has faulted or else of the debug box. -/
  | lost {u : System} (box : excFromPsp e.lr = true)
      (active : u.unit = s.unit ∨ Entered sys.port notAllowed (report e s) u)
      (bus : ¬BusRecovery.Open (sys.bus u.unit)) : Settled sys e s .lost
  /-- No region can be made of the pages around the address. -/
  | untranslated (irq : systemIrq (irqnOf e.ipsr) = some .memoryManagement)
      (h : vmpuFaultRecoveryMpu sys.cfg sys.g (faultAddress e s) (newStatus e) s.unit = none) :
      Settled sys e s .lost

/-! ## The memory protection -/

section Unit

variable {cfg : Config} {g : Geometry} {u u' : ArmMpu.State}

theorem pushAll_activeBox (priority : ℕ) (regions : List ArmMpu.MpuRegion) (u : ArmMpu.State) :
    (ArmMpu.pushAll priority regions u).activeBox = u.activeBox := by
  have hpush (s : ArmMpu.State) (region : ArmMpu.MpuRegion) :
      (ArmMpu.vmpuMpuPush region priority s).activeBox = s.activeBox := rfl
  exact foldl_keeps ArmMpu.State.activeBox hpush regions u

theorem pushPages_activeBox {mask : BitVec 8} {index : ℕ} {more : Bool}
    (h : ArmMpu.vmpuMemPushPageAclIterator g mask index u = some (more, u')) :
    u'.activeBox = u.activeBox := by
  obtain ⟨region, -, hout⟩ := Option.map_eq_some_iff.mp h
  obtain ⟨-, rfl⟩ := Prod.mk.inj hout
  rfl

theorem iteratePageMasks_activeBox {octets ii : ℕ}
    (h : ArmMpu.iteratePageMasks g (ArmMpu.vmpuMemPushPageAclIterator g) octets ii u = some u') :
    u'.activeBox = u.activeBox := by
  induction octets generalizing ii u with
  | zero =>
    obtain rfl := Option.some.inj h
    rfl
  | succ octets ih =>
    unfold ArmMpu.iteratePageMasks at h
    dsimp only at h
    split_ifs at h with hmask
    · obtain ⟨⟨more, v⟩, hpush, hrest⟩ := Option.bind_eq_some_iff.mp h
      have hv := pushPages_activeBox hpush
      dsimp only at hrest
      split_ifs at hrest
      · exact (ih hrest).trans hv
      · rw [← Option.some.inj hrest]
        exact hv
    · exact ih h

theorem vmpuSwitch_activeBox {dstBox : BoxId} (h : ArmMpu.vmpuSwitch cfg g dstBox u = some u') :
    u'.activeBox = u.activeBox := by
  have hinvalid := (MpuIsolation.vmpuMpuInvalidate_spec u).2.1
  rcases MpuIsolation.vmpuSwitch_cases h with ⟨-, region, rest, v, -, hmasks, rfl⟩ |
    ⟨-, v, hmasks, rfl⟩
  · rw [pushAll_activeBox, iteratePageMasks_activeBox hmasks]
    exact hinvalid
  · rw [pushAll_activeBox, pushAll_activeBox, iteratePageMasks_activeBox hmasks]
    exact hinvalid

theorem recovery_activeBox {address status : Word} {recovered : Bool}
    (h : vmpuFaultRecoveryMpu cfg g address status u = some (recovered, u')) :
    u'.activeBox = u.activeBox := by
  unfold vmpuFaultRecoveryMpu at h
  split at h
  · rw [← (Prod.mk.inj (Option.some.inj h)).2]
  · split at h
    · obtain ⟨⟨more, v⟩, hpush, hout⟩ := Option.map_eq_some_iff.mp h
      obtain ⟨-, rfl⟩ := Prod.mk.inj hout
      exact (pushPages_activeBox hpush).trans rfl
    · split at h
      · rw [← (Prod.mk.inj (Option.some.inj h)).2]
      · rw [← (Prod.mk.inj (Option.some.inj h)).2]
        rfl

/-- A recovery that fails has changed nothing. -/
theorem recovery_fails {address status : Word}
    (h : vmpuFaultRecoveryMpu cfg g address status u = some (false, u')) : u' = u := by
  unfold vmpuFaultRecoveryMpu at h
  split at h
  · exact (Prod.mk.inj (Option.some.inj h)).2.symm
  · split at h
    · obtain ⟨_, -, hout⟩ := Option.map_eq_some_iff.mp h
      cases (Prod.mk.inj hout).1
    · split at h
      · exact (Prod.mk.inj (Option.some.inj h)).2.symm
      · cases (Prod.mk.inj (Option.some.inj h)).1

theorem port_lawful (sys : Platform) : sys.port.Lawful where
  switch_allowed _ := trivial
  switch_activeBox := by
    intro u u' box a hswitch hstep
    simp only [Platform.port] at hswitch hstep ⊢
    split_ifs at hswitch with hbox
    obtain rfl := Option.some.inj hswitch
    simp only [MpuIsolation.step] at hstep
    split_ifs at hstep
    rw [vmpuSwitch_activeBox hstep]

end Unit

/-! ## Runs -/

section Runs

variable {sys : Platform} {s t : System} {e : Exception}

theorem leads_report (h : s.debug.ctx.activeBox = sys.port.activeBox s.unit) (e : Exception) :
    Leads sys.port s (report e s) := by
  unfold report
  split
  · exact (Leads.refl h).setRegisters _
  · exact (Leads.refl h).setRegisters _
  · exact .refl h

theorem sound_faultAddr (h : Leads sys.port s t) (e : Exception) (sp faultStatus : Word) :
    (faultAddr sys e sp faultStatus t).Sound sys.port s := by
  unfold faultAddr
  split_ifs
  · exact sound_goesOn h sp
  · exact sound_andThen (sound_readPc h _ _ _) fun _ t h => sound_goesOn h _

theorem sound_haltReturn (h : Leads sys.port s t) (reason : HaltError) (lr : Word) :
    ((sys.port.haltError reason t).andThen fun _ t => Outcome.goesOn lr t).Sound sys.port s :=
  sound_andThen (sound_haltError (port_lawful sys) h reason) fun _ _ h => sound_goesOn h lr

/-- A recovery is a step of the memory protection. -/
theorem leads_recovered {address status : Word} {unit : ArmMpu.State} (h : Leads sys.port s t)
    (hrecovery : vmpuFaultRecoveryMpu sys.cfg sys.g address status t.unit = some (true, unit)) :
    Leads sys.port s {t with unit} := by
  refine h.trans ⟨?_, .start rfl, h.activeBox.trans ?_⟩
  · refine .step (a := .fault address status) (.start rfl) trivial ?_
    change MpuIsolation.step sys.cfg sys.g t.unit (.fault address status) = some unit
    simp only [MpuIsolation.step, hrecovery]
  · exact congrArg Fin.val (recovery_activeBox hrecovery).symm

/-- The handler does nothing to the memory protection and to the debug box that
these do not do themselves. -/
theorem sound_handle (h : s.debug.ctx.activeBox = sys.port.activeBox s.unit) (e : Exception) :
    (handle sys e s).Sound sys.port s := by
  have hreport := leads_report h e
  unfold handle vmpuSysMuxHandler
  dsimp only
  split
  · exact sound_haltReturn hreport _ _
  · refine sound_andThen (sound_faultAddr hreport e _ _) fun address t ht => ?_
    cases hrecovery : vmpuFaultRecoveryMpu sys.cfg sys.g address
        ((report e s).registers.mmfsr.setWidth 32) t.unit with
    | none => exact sound_lost
    | some result =>
      obtain ⟨recovered, unit⟩ := result
      cases recovered with
      | true =>
        exact sound_goesOn (t := writeMmfsr _ {t with unit})
          ((leads_recovered ht hrecovery).setRegisters _) e.lr
      | false =>
        obtain rfl := recovery_fails hrecovery
        exact sound_haltReturn (t := writeMmfsr _ t) (ht.setRegisters _) _ _
  · split_ifs
    · refine sound_andThen (sound_readPc hreport _ _ _) fun pc t ht => ?_
      refine sound_andThen (sound_recoverBus (port_lawful sys) ht _ _ _) fun code t ht => ?_
      split_ifs
      · exact sound_goesOn (ht.setRegisters _) _
      · exact sound_haltReturn ht _ _
    · exact sound_haltReturn hreport _ _
  · exact sound_haltReturn hreport _ _

/-- A run with exceptions consists of a run of the memory protection and a run
of the debug box. -/
theorem refines_reached (h : Reached sys s) :
    Refines sys.port (MpuIsolation.Initial sys.cfg sys.g) s :=
  refines_reachable (port_lawful sys) (fun e _ h => sound_handle h e) h

/-! ## Every exception is settled -/

theorem returns_iff (e : Exception) : ReturnsToThread (returnFor e) ↔ Continues e := by
  unfold returnFor Continues
  split
  · exact returnsToThread_enterFromPriv
  · exact returnsToThread_enterFromPriv
  · exact .rfl

/-- On ARMv7-M a halt that has entered the debug box goes on. -/
theorem enteredOutcome_goesOn (sys : Platform) (t : System) :
    enteredOutcome sys.port t = .goesOn () t := by
  have hcore : sys.port.device.core = .armv7m := sys.core
  unfold enteredOutcome
  rw [hcore]

theorem settled_halt (sys : Platform) (e : Exception) (s : System) {registers : Registers}
    (hclear : registers.mmfsr = 0)
    (hunrecovered : systemIrq (irqnOf e.ipsr) = some .memoryManagement →
      recoveredFrom sys e s = none) : Settled sys e s
      ((sys.port.haltError (reasonFor e) {s with registers}).andThen fun _ t =>
        .goesOn (returnFor e) t) := by
  rcases haltError_cases sys.port (reasonFor e) {s with registers} with ⟨hnone, hloops⟩ |
    ⟨t, hentered, hout⟩
  · rw [hloops]
    exact .looped hnone
  · rw [hout, enteredOutcome_goesOn]
    exact .halted hclear hunrecovered hentered (returns_iff e)

/-- Writing a status back clears it. -/
theorem status_cleared (status : BitVec 8) :
    status &&& ~~~((status.setWidth 32).setWidth 8) = 0 := by
  ext i hi
  simp

/-- What is reported for a fault of the memory protection. -/
theorem report_memoryManagement (hclear : s.registers.mmfsr = 0)
    (hirq : systemIrq (irqnOf e.ipsr) = some .memoryManagement) :
    report e s = {s with registers := {s.registers with
      mmfsr := e.status.setWidth 8, mmfar := e.address}} := by
  simp [report, hirq, hclear]

/-- The address is known before the recovery, unless the program counter of the
box cannot be read. -/
theorem faultAddr_cases (hclear : s.registers.mmfsr = 0)
    (hirq : systemIrq (irqnOf e.ipsr) = some .memoryManagement) :
    faultAddr sys e (stackPointer e s) (newStatus e) (report e s) =
        .goesOn (faultAddress e s) (report e s) ∨
      faultAddr sys e (stackPointer e s) (newStatus e) (report e s) = .lost ∧
        excFromPsp e.lr = true ∧ ¬BusRecovery.Open (sys.bus s.unit) := by
  have hreport := report_memoryManagement hclear hirq
  unfold faultAddr faultAddress Port.readPc
  split_ifs with hstacking hpsp hreads
  · exact .inl rfl
  · refine .inl ?_
    rw [hreport]
    rfl
  · exact .inr ⟨rfl, hpsp, fun hopen => hreads (hreport ▸ hopen.reads _ _)⟩
  · refine .inl ?_
    rw [hreport]
    rfl

/-- The status that the handler reads is the one that has just been reported. -/
theorem handle_memoryManagement (hclear : s.registers.mmfsr = 0)
    (hirq : systemIrq (irqnOf e.ipsr) = some .memoryManagement) :
    handle sys e s =
      (faultAddr sys e (stackPointer e s) (newStatus e) (report e s)).andThen fun faultAddr t =>
        match vmpuFaultRecoveryMpu sys.cfg sys.g faultAddr (newStatus e) t.unit with
        | none => .lost
        | some (true, unit) => .goesOn e.lr (writeMmfsr (newStatus e) {t with unit})
        | some (false, unit) =>
          (sys.port.haltError permissionDenied (writeMmfsr (newStatus e) {t with unit})).andThen
            fun _ t => .goesOn (debugBoxEnterFromPriv e.lr) t := by
  have hreport := report_memoryManagement hclear hirq
  simp only [handle, vmpuSysMuxHandler, hirq, hreport]
  rfl

theorem settled_memoryManagement (hclear : s.registers.mmfsr = 0)
    (hirq : systemIrq (irqnOf e.ipsr) = some .memoryManagement) :
    Settled sys e s (handle sys e s) := by
  have hreport := report_memoryManagement hclear hirq
  have hreason : reasonFor e = permissionDenied := by simp [reasonFor, hirq]
  have hreturn : returnFor e = debugBoxEnterFromPriv e.lr := by simp [returnFor, hirq]
  have hwrite : ∀ unit, writeMmfsr (newStatus e) {s with
      unit, registers := {s.registers with mmfsr := e.status.setWidth 8, mmfar := e.address}} =
      {s with unit, registers := {s.registers with mmfsr := 0, mmfar := e.address}} := by
    intro unit
    simp only [writeMmfsr, newStatus, status_cleared]
  rw [handle_memoryManagement hclear hirq]
  rcases faultAddr_cases hclear hirq with haddress | ⟨haddress, hbox, hopen⟩
  · rw [haddress, hreport]
    dsimp only [Outcome.andThen]
    cases hrecovery : vmpuFaultRecoveryMpu sys.cfg sys.g (faultAddress e s) (newStatus e)
        s.unit with
    | none => exact .untranslated hirq hrecovery
    | some result =>
      obtain ⟨recovered, unit⟩ := result
      cases recovered with
      | true =>
        dsimp only
        rw [hwrite]
        refine .recovered hirq ?_
        simp only [recoveredFrom, MpuIsolation.step, hrecovery]
      | false =>
        obtain rfl := recovery_fails hrecovery
        dsimp only
        rw [hwrite, ← hreason, ← hreturn]
        refine settled_halt sys e s rfl fun _ => ?_
        simp only [recoveredFrom, MpuIsolation.step, hrecovery]
  · rw [haddress]
    exact .lost hbox (.inl rfl) hopen

/-- A bus fault of a box whose program counter has been checked. -/
theorem settled_emulateBus {u : System} (hbox : excFromPsp e.lr = true)
    (hactive : u.unit = s.unit ∨ Entered sys.port notAllowed (report e s) u)
    (hregisters : u.registers = (report e s).registers)
    (hemulated : ∀ t, BusEmulated sys (stackedPc s) s.debug.ctx.psp (busStatus e s) u t →
      Settled sys e s (.goesOn e.lr t))
    (hfails : Settled sys e s ((sys.port.haltError permissionDenied u).andThen fun _ t =>
      .goesOn e.lr t)) :
    Settled sys e s ((sys.port.emulateBus (stackedPc s) s.debug.ctx.psp (busStatus e s) u).andThen
      fun code t =>
        if code = 0 then .goesOn e.lr (writeBfsr (busStatus e s) t)
        else (sys.port.haltError permissionDenied t).andThen fun _ t => .goesOn e.lr t) := by
  rcases emulateBus_cases sys.port (stackedPc s) s.debug.ctx.psp (busStatus e s) u with
    ⟨hlost, hopen⟩ | hnothing | ⟨t, ht, hout⟩
  · rw [hlost]
    exact .lost hbox hactive hopen
  · rw [hnothing]
    exact hfails
  · rw [hout]
    refine hemulated _ ⟨t, ht, ?_⟩
    have hsame : t.registers = (report e s).registers := by
      obtain ⟨i, instruction, after, -, rfl⟩ := ht
      exact hregisters
    rw [writeBfsr, busStatus, hsame, status_cleared]

theorem follow_registers {debug : DebugBox.State} (h : sys.port.follow debug s = some t) :
    t.registers = s.registers := by
  unfold Port.follow at h
  split_ifs at h
  · rw [← Option.some.inj h]
  · obtain ⟨unit, -, rfl⟩ := Option.map_eq_some_iff.mp h
    rfl

/-- What is reported for a bus fault. -/
theorem report_busFault (hirq : systemIrq (irqnOf e.ipsr) = some .busFault) :
    report e s = {s with registers := (report e s).registers} := by
  simp [report, hirq]

/-- A bus fault of privileged code halts. -/
theorem handle_busFault_privileged (hirq : systemIrq (irqnOf e.ipsr) = some .busFault)
    (hbox : excFromPsp e.lr = false) :
    handle sys e s = (sys.port.haltError permissionDenied (report e s)).andThen fun _ t =>
      .goesOn e.lr t := by
  simp only [handle, vmpuSysMuxHandler, hirq, hbox]
  rfl

/-- A bus fault of a box is looked at if its program counter can be read. -/
theorem handle_busFault_box (hirq : systemIrq (irqnOf e.ipsr) = some .busFault)
    (hbox : excFromPsp e.lr = true) :
    handle sys e s =
      if (sys.bus s.unit).reads (s.debug.ctx.psp+24) 4 = true then
        ((sys.port.haltUnless (vmpuPublicFlashAddr sys.device.sys (stackedPc s)) notAllowed
          (report e s)).andThen fun _ t =>
            sys.port.emulateBus (stackedPc s) s.debug.ctx.psp (busStatus e s) t).andThen
          fun code t =>
            if code = 0 then .goesOn e.lr (writeBfsr (busStatus e s) t)
            else (sys.port.haltError permissionDenied t).andThen fun _ t => .goesOn e.lr t
      else .lost := by
  have hunit : (report e s).unit = s.unit := by rw [report_busFault hirq]
  have hdebug : (report e s).debug = s.debug := by rw [report_busFault hirq]
  simp only [handle, vmpuSysMuxHandler, hirq, hbox, if_true, stackPointer, Port.readPc, hunit,
    hdebug]
  by_cases hreads : (sys.bus s.unit).reads (s.debug.ctx.psp+24) 4 = true
  · rw [if_pos hreads]
    simp only [Platform.port, hreads, if_true, Outcome.andThen, Port.recoverBus, stackedPc,
      busStatus]
  · rw [if_neg hreads]
    simp only [Platform.port, hreads]
    rfl

theorem settled_busFault (hclear : s.registers.mmfsr = 0)
    (hirq : systemIrq (irqnOf e.ipsr) = some .busFault) :
    Settled sys e s (handle sys e s) := by
  have hreport := @report_busFault s e hirq
  have hreason : reasonFor e = permissionDenied := by simp [reasonFor, hirq]
  have hreturn : returnFor e = e.lr := by simp [returnFor, hirq]
  have hfails : Settled sys e s
      ((sys.port.haltError permissionDenied (report e s)).andThen fun _ t => .goesOn e.lr t) := by
    rw [hreport, ← hreason, ← hreturn]
    refine settled_halt sys e s ?_ fun hmemory => ?_
    · simpa [report, hirq] using hclear
    · rw [hirq] at hmemory
      cases hmemory
  cases hbox : excFromPsp e.lr with
  | false =>
    rw [handle_busFault_privileged hirq hbox]
    exact hfails
  | true =>
    rw [handle_busFault_box hirq hbox]
    split_ifs with hreads
    · cases hflash : vmpuPublicFlashAddr sys.device.sys (stackedPc s) with
      | true =>
        have hunit : (report e s).unit = s.unit := by rw [hreport]
        exact settled_emulateBus hbox (.inl hunit) rfl
          (fun t ht => .emulated hirq hbox hflash ht) hfails
      | false =>
        have hhalt : sys.port.haltUnless false notAllowed (report e s) =
          sys.port.haltError notAllowed (report e s) := rfl
        rw [hhalt]
        rcases haltError_cases sys.port notAllowed (report e s) with ⟨hnone, hloops⟩ |
          ⟨u, hentered, hout⟩
        · rw [hloops]
          rw [hreport] at hnone
          exact .looped hnone
        · rw [hout, enteredOutcome_goesOn]
          refine settled_emulateBus hbox (.inr hentered) (follow_registers hentered.follow)
            (fun t ht => .borrowed hirq hbox hflash hentered ht) ?_
          -- the halt that comes after it is the second one
          rw [hentered.haltError]
          exact .refused hirq hbox hflash hentered
    · exact .lost hbox (.inl rfl) fun hopen => hreads (hopen.reads _ _)

/-- In every run every exception is settled in one of these ways. -/
theorem settled_handle (hclear : s.registers.mmfsr = 0) (e : Exception) :
    Settled sys e s (handle sys e s) := by
  by_cases hmemory : systemIrq (irqnOf e.ipsr) = some .memoryManagement
  · exact settled_memoryManagement hclear hmemory
  by_cases hbus : systemIrq (irqnOf e.ipsr) = some .busFault
  · exact settled_busFault hclear hbus
  have hhandle : handle sys e s = (sys.port.haltError (reasonFor e) s).andThen fun _ t =>
      .goesOn (returnFor e) t := by
    unfold handle vmpuSysMuxHandler report reasonFor returnFor
    cases hirq : systemIrq (irqnOf e.ipsr) with
    | none => rfl
    | some irq => cases irq <;> first | rfl | contradiction
  rw [hhandle]
  exact settled_halt sys e s hclear fun h => absurd h hmemory

/-! ## Every run -/

/-- The lookup finds a region in the slice of a box. -/
theorem find_mem {table : BoxMemory.Table} {boxId i : ℕ} {address : Word}
    (h : AclSlices.vmpuRegionFindForAddress table boxId address = some i) :
    table.mpuRegion i ∈ boxRegions table boxId ∧ inRange address (table.mpuRegion i) = true := by
  rw [AclSlices.find_eq] at h
  obtain ⟨k, hk, rfl⟩ := Option.map_eq_some_iff.mp h
  obtain ⟨hlt, hin, -⟩ := List.findIdx?_eq_some_iff_getElem.mp hk
  have hget : (boxRegions table boxId)[k] = table.mpuRegion (table.firstIndex boxId+k) := by
    simp [boxRegions]
  rw [hget] at hin
  exact ⟨hget ▸ List.getElem_mem hlt, hin⟩

/-- The region for a fault is one of the active box or of box 0. -/
theorem findRegion_mem {box : BoxId} {address : Word} {region : ArmMpu.MpuRegion}
    (h : BusRecovery.vmpuFaultFindRegion sys.table box.val address = some region) :
    ∃ owner, (owner = box ∨ owner = 0) ∧ region ∈ sys.cfg.regions owner ∧
      inRange address region = true := by
  obtain ⟨i, hfind, rfl⟩ := Option.map_eq_some_iff.mp h
  rcases Option.or_eq_some_iff.mp hfind with hown | ⟨-, hpublic⟩
  · split_ifs at hown
    obtain ⟨hmem, hin⟩ := find_mem hown
    exact ⟨box, .inl rfl, sys.regions box ▸ hmem, hin⟩
  · obtain ⟨hmem, hin⟩ := find_mem hpublic
    exact ⟨0, .inr rfl, sys.regions 0 ▸ hmem, hin⟩

/-- A right that is looked up is one of a region. -/
theorem mayMake_of_acl {box : BoxId} {instruction : Instruction} {address : Word}
    (h : vmpuFaultFindAcl sys.table box.val address 4 &&& instruction.right ≠ 0) :
    MayMake sys box (instruction, address) := by
  unfold vmpuFaultFindAcl at h
  split_ifs at h with hscr
  · exact .inl hscr
  dsimp only at h
  cases hfind : BusRecovery.vmpuFaultFindRegion sys.table box.val (physicalAddr address) with
  | none =>
    rw [hfind] at h
    simp at h
  | some region =>
    rw [hfind] at h
    obtain ⟨owner, howner, hmem, hin⟩ := findRegion_mem hfind
    refine .inr ⟨owner, howner, region, hmem, hin, fun hzero => h ?_⟩
    dsimp only
    split_ifs
    · exact BitVec.zero_and
    · exact hzero

/-- What an emulation adds to the accesses. -/
theorem emulated_executed {pc sp status : Word} (h : EmulatedIn sys.port pc sp status s t) :
    ∃ access, MayMake sys s.unit.activeBox access ∧ t.executed = s.executed ++ [access] := by
  obtain ⟨i, instruction, after, hemulated, rfl⟩ := h
  exact ⟨_, mayMake_of_acl hemulated.permitted, hemulated.executed⟩

theorem follow_executed {debug : DebugBox.State} (h : sys.port.follow debug s = some t) :
    t.executed = s.executed := by
  unfold Port.follow at h
  split_ifs at h
  · rw [← Option.some.inj h]
  · obtain ⟨unit, -, rfl⟩ := Option.map_eq_some_iff.mp h
    rfl

theorem Clean.emulated {pc sp status : Word} {u : System} (hmmfsr : u.registers.mmfsr = 0)
    (hexecuted : ∀ access ∈ u.executed, ∃ box, MayMake sys box access)
    (h : BusEmulated sys pc sp status u t) : Clean sys t := by
  obtain ⟨v, hv, rfl⟩ := h
  obtain ⟨access, hmay, hadded⟩ := emulated_executed hv
  refine ⟨?_, fun _ => rfl, fun other hother => ?_⟩
  · obtain ⟨i, instruction, after, -, rfl⟩ := hv
    exact hmmfsr
  · rw [show v.executed = _ from hadded] at hother
    rcases List.mem_append.mp hother with hold | hnew
    · exact hexecuted other hold
    · exact ⟨_, List.mem_singleton.mp hnew ▸ hmay⟩

/-- An exception leaves no status behind. -/
theorem clean_settled {o : Outcome ArmMpu.State Registers Word} (h : Clean sys s)
    (hsettled : Settled sys e s o) (ht : o.state = some t) : Clean sys t := by
  cases hsettled with
  | recovered irq step =>
    obtain rfl := Option.some.inj ht
    exact ⟨rfl, h.bfsr, h.executed⟩
  | emulated irq box flash access =>
    obtain rfl := Option.some.inj ht
    have hreport : (report e s).registers.mmfsr = 0 ∧ (report e s).executed = s.executed := by
      simpa [report, irq] using h.mmfsr
    exact .emulated hreport.1 (hreport.2 ▸ h.executed) access
  | halted clear unrecovered hentered returns =>
    obtain rfl := Option.some.inj ht
    refine ⟨?_, fun hfirst => ?_, ?_⟩
    · rw [follow_registers hentered.follow]
      exact clear
    · rw [hentered.handled.debuggedOnceBefore] at hfirst
      cases hfirst
    · rw [follow_executed hentered.follow]
      exact h.executed
  | borrowed irq box flash hentered access =>
    obtain rfl := Option.some.inj ht
    have hreport : (report e s).registers.mmfsr = 0 ∧ (report e s).executed = s.executed := by
      simpa [report, irq] using h.mmfsr
    refine .emulated ?_ ?_ access
    · rw [follow_registers hentered.follow]
      exact hreport.1
    · rw [follow_executed hentered.follow, hreport.2]
      exact h.executed
  | refused | looped | lost | untranslated => cases ht

theorem clean_reached (h : Reached sys s) : Clean sys s := by
  refine h.invariant (Clean sys) (fun s hinit => ?_) fun s a t hclean _ hs => ?_
  · refine ⟨hinit.registers.1, fun _ => hinit.registers.2, fun access haccess => ?_⟩
    rw [hinit.executed] at haccess
    cases haccess
  cases a with
  | unit a =>
    obtain ⟨unit, -, rfl⟩ := Option.map_eq_some_iff.mp hs
    exact ⟨hclean.mmfsr, hclean.bfsr, hclean.executed⟩
  | debug a =>
    obtain ⟨debug, hdebug, hfollow⟩ := Option.bind_eq_some_iff.mp hs
    have hregisters := follow_registers hfollow
    refine ⟨hregisters ▸ hclean.mmfsr, fun hfirst => ?_,
      follow_executed hfollow ▸ hclean.executed⟩
    rw [hregisters]
    refine hclean.bfsr ?_
    rw [follow_debug hfollow] at hfirst
    exact not_once_of_step hdebug hfirst
  | exception e => exact clean_settled hclean (settled_handle hclean.mmfsr e) hs

/-- In every run, whatever exceptions there are, the memory protection isolates
the active box, and every access that the monitor carries out for a box is one
that a box may make. No status is left behind before the first halt. -/
theorem safe_with_exceptions (h : Reached sys s) : Safe sys s := by
  have hrefines := refines_reached h
  exact ⟨clean_reached h, (MpuIsolation.inv_reachable hrefines.unit).2.isolated,
    hrefines.activeBox, DebugBox.inv_reachable hrefines.debug⟩

end Runs

/-! ## Two boxes -/

/-- The stack of box 1. -/
theorem someStack_isSome : (MpuIsolation.someRegion 0x20008000 0x400).isSome := by decide

/-- The regions of two boxes in a table. -/
def twoTable : BoxMemory.Table where
  mpuRegionCount := 2
  mpuRegion i :=
    if i = 0 then (MpuIsolation.someRegion 0x40000000 0x1000).get MpuIsolation.somePeripheral_isSome
    else (MpuIsolation.someRegion 0x20008000 0x400).get someStack_isSome
  mpuBoxRegion box := if box < 2 then ⟨some box, 1⟩ else ⟨none, 0⟩

theorem twoTable_regions (box : BoxId) :
    MpuIsolation.twoBoxes.regions box = boxRegions twoTable box.val := by
  obtain ⟨_ | _ | box, hbox⟩ := box
  · rfl
  · rfl
  · have hempty : boxRegions twoTable (box+2) = [] := by
      simp [boxRegions, twoTable]
    rw [hempty]
    rfl

/-- Two boxes whose bus lets everything pass. -/
def twoPlatform : Platform where
  device := ⟨.armv7m, BoxInit.sampleDevice 2 (by decide), fun _ => 0x401, 0x501⟩
  cfg := MpuIsolation.twoBoxes
  g := fourPages
  table := twoTable
  bus _ := ⟨fun _ _ => true, fun _ _ => true, fun _ _ => true⟩
  core := rfl
  boxCount := rfl
  regions := twoTable_regions

/-- Box 0 is active after a boot. -/
def started : System where
  unit := MpuIsolation.bootedState
  debug := {DebugBox.booted with ctx := {DebugBox.booted.ctx with activeBox := 0}}
  executed := []
  registers := ⟨0, 0, 0, 0⟩

/-- Box 0 registers a driver, and box 1 becomes active and takes a page. -/
def actions : List (Action MpuIsolation.Action Exception) :=
  [.debug (.debugInit 0x300),
    .debug (.others {started.debug.ctx with activeBox := 1} started.debug.mem 0 false),
    .unit (.malloc (tableOf [0]))]

/-- The first access to a page. -/
def pageFault : Exception := ⟨4, 0xFFFFFFFD, 0x20000800, 0x82, 0x20001010⟩

/-- A usage fault. -/
def usageFault : Exception := ⟨6, 0xFFFFFFFD, 0x20000800, 0, 0⟩

theorem started_reached : Reached twoPlatform started :=
  .start ⟨MpuIsolation.initial_bootedState, ⟨rfl, rfl⟩, rfl, ⟨rfl, rfl⟩, rfl⟩

/-- Every one of these actions is allowed. -/
theorem actions_allowed (rest : List (Action MpuIsolation.Action Exception))
    (hrest : ∀ a ∈ rest, ∃ e, a = .exception e) :
    ∀ a ∈ actions ++ rest, ∀ t : System, Allowed twoPlatform.port t a := by
  intro a ha t
  rcases List.mem_append.mp ha with hfirst | hlater
  · simp only [actions, List.mem_cons, List.not_mem_nil, or_false] at hfirst
    rcases hfirst with rfl | rfl | rfl
    · trivial
    · trivial
    · refine ⟨trivial, fun box hbox => ?_⟩
      obtain rfl := Option.some.inj hbox
      rfl
  · obtain ⟨e, rfl⟩ := hrest a hlater
    trivial

theorem actions_reached {rest : List (Action MpuIsolation.Action Exception)}
    (hrest : ∀ a ∈ rest, ∃ e, a = .exception e) {s : System}
    (h : exec (FaultHandlers.step twoPlatform.port (handle twoPlatform)) (actions ++ rest) started =
      some s) : Reached twoPlatform s :=
  exec_reachable_of_allowed (actions_allowed rest hrest) started_reached h

/-- Box 1 accesses its page, and the unit grants it from then on. -/
theorem safe_with_exceptions_page :
    ∃ s, exec (FaultHandlers.step twoPlatform.port (handle twoPlatform))
        (actions ++ [.exception pageFault]) started = some s ∧
      (s.unit.mpu.regions 4).enabled = true ∧ Safe twoPlatform s := by
  have hrun : ((exec (FaultHandlers.step twoPlatform.port (handle twoPlatform))
      (actions ++ [.exception pageFault]) started).map fun s =>
        (s.unit.mpu.regions 4).enabled) = some true := by decide +kernel
  obtain ⟨s, hs, henabled⟩ := Option.map_eq_some_iff.mp hrun
  exact ⟨s, hs, henabled, safe_with_exceptions (actions_reached (by simp) hs)⟩

end Uvisor.MpuFaults
