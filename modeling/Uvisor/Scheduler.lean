import Uvisor.IpcTermination
import Uvisor.SauPriority
import Uvisor.SecureVirqRuns

/-!
# Preemption of boxes on ARMv8-M

The tick of the scheduler preempts the active box and returns to another one.
Registers that exceptions do not stack, and the special registers of the
non-secure state, are saved for every box. The registers that an exception
does stack lie on the box's own stack, except for a box that was preempted in
the secure state: those are on the stack of the monitor, which all boxes
share, and are saved too. They come back into the same frame, whose upper half
is a stacked one only if the box that is preempted came from the secure state
and is used only if the box that is entered did.
-/

namespace Uvisor.Scheduler

open Execution
open Context (Word)

/-! ## State -/

/-- What the handler of the tick finds on the stack. -/
structure SavedReg where
  /-- Registers that exceptions do not stack. -/
  (r4 r5 r6 r7 r8 r9 r10 r11 : Word)
  /-- EXC_RETURN. -/
  lr : Word
  /-- Registers stacked for an exception from the secure state. -/
  (r0 r1 r2 r3 r12 retlr retaddr retpsr : Word)
  deriving DecidableEq

/-- Special registers of the non-secure state. -/
structure SpecialReg where
  /-- Process and main stack pointers. -/
  (psp msp : Word)
  /-- Their limits. -/
  (psplim msplim : Word)
  /-- Control and mask registers. -/
  (control basepri faultmask primask : Word)
  deriving DecidableEq

/-- The part of the current state of a box that the scheduler uses. -/
structure CurrentState where
  /-- EXC_RETURN. -/
  lr : Word
  /-- Remaining milliseconds of run-time. -/
  remainingMs : Word
  /-- Registers of a box that was preempted in the secure state. -/
  (r0 r1 r2 r3 r12 retaddr retlr retpsr : Word)
  /-- Stack pointers. -/
  (psp msp : Word)
  /-- Registers of any box that was preempted. -/
  (r4 r5 r6 r7 r8 r9 r10 r11 : Word)
  /-- Special registers of any box that was preempted. -/
  (psplim msplim control basepri faultmask primask : Word)
  deriving Inhabited

/-- Constants of a booted system. -/
structure Platform where
  /-- Number of boxes. -/
  boxCount : ℕ
  /-- Constants of the IPC. -/
  ipc : Ipc.Platform
  /-- Constants of the interrupts. -/
  virq : SecureVirq.Platform
  /-- Regions of the boxes. -/
  regions : PageAllocator.BoxId → List ArmMpu.MpuRegion
  /-- The page heap. -/
  geometry : PageAllocator.Geometry

/-- Variables and registers that a preemption reads and writes. -/
structure State where
  /-- The active box and the stack of contexts. -/
  ctx : Context.State
  /-- g_context_current_states, the other fields. -/
  currentStates : ℕ → CurrentState
  /-- g_next_box_id. -/
  nextBoxId : ℕ
  /-- Registers of the non-secure state. -/
  special : SpecialReg
  /-- Memory of the IPC. -/
  ipc : Ipc.Memory
  /-- Interrupts of the boxes. -/
  virq : SecureVirq.State
  /-- Memory protection. -/
  sau : ArmSau.State

/-! ## Preemption -/

/-- EXC_FROM_S. -/
def excFromS (lr : Word) : Bool := lr &&& 0x40 != 0

/-- The stack pointer in use is chosen by a control bit. -/
def tzGetSpNs (special : SpecialReg) : Word :=
  if special.control &&& 2 ≠ 0 then special.psp else special.msp

/-- The saved registers of a box that is preempted. -/
def savedState (reg : SavedReg) (special : SpecialReg) (src : CurrentState) : CurrentState :=
  let src :=
    if excFromS reg.lr then
      {src with
        r0 := reg.r0, r1 := reg.r1, r2 := reg.r2, r3 := reg.r3, r12 := reg.r12
        retlr := reg.retlr, retaddr := reg.retaddr, retpsr := reg.retpsr}
    else src
  {src with
    r4 := reg.r4, r5 := reg.r5, r6 := reg.r6, r7 := reg.r7
    r8 := reg.r8, r9 := reg.r9, r10 := reg.r10, r11 := reg.r11
    lr := reg.lr
    psp := special.psp, msp := special.msp
    psplim := special.psplim, msplim := special.msplim
    control := special.control, basepri := special.basepri
    faultmask := special.faultmask, primask := special.primask}

/-- The frame through which a box is entered. Its upper half keeps what it has
if the box was not preempted in the secure state. -/
def restoredReg (dst : CurrentState) (reg : SavedReg) : SavedReg :=
  let reg :=
    if excFromS dst.lr then
      {reg with
        r0 := dst.r0, r1 := dst.r1, r2 := dst.r2, r3 := dst.r3, r12 := dst.r12
        retlr := dst.retlr, retaddr := dst.retaddr, retpsr := dst.retpsr}
    else reg
  {reg with
    r4 := dst.r4, r5 := dst.r5, r6 := dst.r6, r7 := dst.r7
    r8 := dst.r8, r9 := dst.r9, r10 := dst.r10, r11 := dst.r11
    lr := dst.lr}

/-- The special registers with which a box is entered. -/
def restoredSpecial (dst : CurrentState) : SpecialReg where
  psp := dst.psp
  msp := dst.msp
  psplim := dst.psplim
  msplim := dst.msplim
  control := dst.control
  basepri := dst.basepri
  faultmask := dst.faultmask
  primask := dst.primask

/-- context_switch_in, with the units that are switched on this architecture.
There are no more boxes than the page allocator knows. -/
def contextSwitchIn (sys : Platform) (dstId : ℕ) (srcSp dstSp : Word) (s : State) :
    Option State :=
  let srcId := s.ctx.activeBox
  (Context.contextSwitchIn sys.boxCount .unboundThread dstId srcSp dstSp s.ctx).bind fun ctx =>
    if srcId = dstId then some {s with ctx}
    else if h : dstId < PageAllocator.maxBoxes then
      let virq := SecureVirq.switchTo sys.virq srcId dstId s.virq
      let sau := {s.sau with activeBox := ⟨dstId, h⟩}
      (ArmSau.vmpuSwitch sys.regions sys.geometry ⟨dstId, h⟩ sau).map fun sau =>
        {s with ctx, virq, sau}
    else none

/-- dispatch, with fuel for the delivery of IPC messages. The destination is
passed on as a byte. -/
def dispatch (sys : Platform) (fuel dstBoxId srcBoxId : ℕ) (reg : SavedReg) (s : State) :
    Option (SavedReg × State) :=
  (Ipc.ipcDrainQueue sys.ipc s.ctx.activeBox fuel s.ipc).bind fun ipc =>
    let saved := savedState reg s.special (s.currentStates srcBoxId)
    let s := {s with
      ipc := ipc
      currentStates := Function.update s.currentStates srcBoxId saved
      ctx := s.ctx.setSp srcBoxId (tzGetSpNs s.special)}
    (contextSwitchIn sys (dstBoxId%256) 0xDEADBEEF 0xDEADBEE2 s).map fun s =>
      let dst := s.currentStates dstBoxId
      (restoredReg dst reg, {s with special := restoredSpecial dst})

/-- time_slice_ms. -/
def timeSliceMs : Word := 100

/-- Write the remaining run-time of a box. -/
def State.setRemaining (s : State) (box : ℕ) (ms : Word) : State :=
  {s with currentStates :=
    Function.update s.currentStates box {s.currentStates box with remainingMs := ms}}

/-- Whether the active box has used up its run-time after some more of it. -/
def State.expires (s : State) (deltaMs : Word) : Bool :=
  ((s.currentStates s.ctx.activeBox).remainingMs-deltaMs).toInt ≤ 0

/-- scheduler_delta_add. -/
def schedulerDeltaAdd (sys : Platform) (fuel : ℕ) (deltaMs : Word) (reg : SavedReg) (s : State) :
    Option (SavedReg × State) :=
  let srcBoxId := s.ctx.activeBox
  let expired := s.expires deltaMs
  let s := s.setRemaining srcBoxId ((s.currentStates srcBoxId).remainingMs-deltaMs)
  if expired then
    let dstBoxId := s.nextBoxId
    let s := {s with nextBoxId := (s.nextBoxId+1)%sys.boxCount}
    (dispatch sys fuel dstBoxId srcBoxId reg s).map fun out =>
      (out.1, out.2.setRemaining srcBoxId timeSliceMs)
  else some (reg, s)

/-- scheduler_tick. -/
def schedulerTick (sys : Platform) (fuel : ℕ) (reg : SavedReg) (s : State) :
    Option (SavedReg × State) :=
  schedulerDeltaAdd sys fuel timeSliceMs reg s

/-! ## Runs -/

/-- The system with an account of the preemptions. -/
structure System where
  /-- Variables and registers. -/
  state : State
  /-- Frame and special registers when a box was last preempted. -/
  preempted : ℕ → Option (SavedReg × SpecialReg)

/-- What happens to the system. -/
inductive Action where
  /-- The active box is preempted and another one is entered. -/
  | dispatch (fuel dstBoxId : ℕ) (reg : SavedReg)
  /-- The tick of the scheduler, which preempts a box whose time is over. -/
  | tick (fuel : ℕ) (reg : SavedReg)
  /-- Anything else happens, in the box that has been entered or in the rest of
  the monitor. The saved registers are not touched. -/
  | others (ctx : Context.State) (special : SpecialReg) (ipc : Ipc.Memory)
    (virq : SecureVirq.State) (sau : ArmSau.State)

/-- The account with a preemption of the active box. -/
def System.preempt (r : System) (reg : SavedReg) : ℕ → Option (SavedReg × SpecialReg) :=
  Function.update r.preempted r.state.ctx.activeBox (some (reg, r.state.special))

/-- One step. -/
def step (sys : Platform) (r : System) : Action → Option System
  | .dispatch fuel dstBoxId reg =>
    (Scheduler.dispatch sys fuel dstBoxId r.state.ctx.activeBox reg r.state).map fun out =>
      ⟨out.2, r.preempt reg⟩
  | .tick fuel reg =>
    (schedulerTick sys fuel reg r.state).map fun out =>
      ⟨out.2, if r.state.expires timeSliceMs then r.preempt reg else r.preempted⟩
  | .others ctx special ipc virq sau =>
    some {r with state := {r.state with ctx, special, ipc, virq, sau}}

/-- No box has been preempted. -/
def Initial (r : System) : Prop := ∀ box, r.preempted box = none

/-! ## What a box is entered with -/

/-- Registers in the lower half of the frame. -/
def SavedReg.lower (reg : SavedReg) : List Word :=
  [reg.r4, reg.r5, reg.r6, reg.r7, reg.r8, reg.r9, reg.r10, reg.r11, reg.lr]

/-- Registers in the upper half of the frame. -/
def SavedReg.upper (reg : SavedReg) : List Word :=
  [reg.r0, reg.r1, reg.r2, reg.r3, reg.r12, reg.retlr, reg.retaddr, reg.retpsr]

/-- A box is entered with the registers with which it was preempted. The upper
half of the frame matters to a box that was preempted in the secure state. -/
structure Resumes (reg : SavedReg) (special : SpecialReg) (was : SavedReg × SpecialReg) :
    Prop where
  /-- Registers that exceptions do not stack, and EXC_RETURN. -/
  lower : reg.lower = was.1.lower
  /-- Special registers of the non-secure state. -/
  special : special = was.2
  /-- Registers that are stacked in the secure state. -/
  upper : excFromS was.1.lr = true → reg.upper = was.1.upper

/-- The saved registers of a box are those with which it was preempted. -/
def Holds (dst : CurrentState) (was : SavedReg × SpecialReg) : Prop :=
  ∀ reg, Resumes (restoredReg dst reg) (restoredSpecial dst) was

/-- The lower half of the frame is restored whatever the security states are. -/
theorem restoredReg_lower (dst : CurrentState) (reg : SavedReg) :
    (restoredReg dst reg).lower =
      [dst.r4, dst.r5, dst.r6, dst.r7, dst.r8, dst.r9, dst.r10, dst.r11, dst.lr] := rfl

theorem restoredReg_upper {dst : CurrentState} (hs : excFromS dst.lr = true) (reg : SavedReg) :
    (restoredReg dst reg).upper =
      [dst.r0, dst.r1, dst.r2, dst.r3, dst.r12, dst.retlr, dst.retaddr, dst.retpsr] := by
  unfold restoredReg
  rw [if_pos hs]
  rfl

/-- Registers that have been saved are restored. -/
theorem holds_savedState (reg : SavedReg) (special : SpecialReg) (src : CurrentState) :
    Holds (savedState reg special src) (reg, special) := by
  intro frame
  refine ⟨restoredReg_lower _ frame, rfl, fun hs => ?_⟩
  rw [restoredReg_upper hs]
  unfold savedState
  rw [if_pos hs]
  rfl

/-- Run-time is not a register. -/
theorem Holds.setRemaining {dst : CurrentState} {was : SavedReg × SpecialReg} (h : Holds dst was)
    (ms : Word) : Holds {dst with remainingMs := ms} was := h

/-! ## Dispatching -/

section Dispatch

variable {sys : Platform} {s t : State} {fuel dstBoxId srcBoxId : ℕ} {reg reg' : SavedReg}

/-- A switch between boxes touches no saved register. -/
theorem contextSwitchIn_currentStates {dstId : ℕ} {srcSp dstSp : Word}
    (h : contextSwitchIn sys dstId srcSp dstSp s = some t) : t.currentStates = s.currentStates := by
  unfold contextSwitchIn at h
  obtain ⟨ctx, -, h⟩ := Option.bind_eq_some_iff.mp h
  dsimp only at h
  split_ifs at h
  · cases h
    rfl
  · obtain ⟨sau, -, rfl⟩ := Option.map_eq_some_iff.mp h
    rfl

/-- What a dispatch does: it saves the registers of the source and restores
those of the destination. -/
theorem dispatch_cases (h : dispatch sys fuel dstBoxId srcBoxId reg s = some (reg', t)) :
    t.currentStates = Function.update s.currentStates srcBoxId
        (savedState reg s.special (s.currentStates srcBoxId)) ∧
      reg' = restoredReg (t.currentStates dstBoxId) reg ∧
      t.special = restoredSpecial (t.currentStates dstBoxId) := by
  unfold dispatch at h
  obtain ⟨ipc, -, h⟩ := Option.bind_eq_some_iff.mp h
  obtain ⟨u, hu, hout⟩ := Option.map_eq_some_iff.mp h
  have hkept := contextSwitchIn_currentStates hu
  cases hout
  exact ⟨hkept, rfl, rfl⟩

/-- Invariant of the runs: the saved registers are those of the last preemption
of each box. -/
def Inv (s : State) (preempted : ℕ → Option (SavedReg × SpecialReg)) : Prop :=
  ∀ box was, preempted box = some was → Holds (s.currentStates box) was

/-- Run-time is not a register. -/
theorem Inv.setRemaining {preempted : ℕ → Option (SavedReg × SpecialReg)} (h : Inv s preempted)
    (box : ℕ) (ms : Word) : Inv (s.setRemaining box ms) preempted := by
  intro b was hwas
  unfold State.setRemaining
  dsimp only
  by_cases hb : b = box
  · subst hb
    rw [Function.update_self]
    exact (h b was hwas).setRemaining ms
  · rw [Function.update_of_ne hb]
    exact h b was hwas

/-- A dispatch keeps the invariant with the preemption that it is, and enters
the destination with the registers of its last preemption. -/
theorem Inv.dispatch {preempted : ℕ → Option (SavedReg × SpecialReg)} (h : Inv s preempted)
    (hd : dispatch sys fuel dstBoxId srcBoxId reg s = some (reg', t)) :
    Inv t (Function.update preempted srcBoxId (some (reg, s.special))) ∧
      ∀ was, Function.update preempted srcBoxId (some (reg, s.special)) dstBoxId = some was →
        Resumes reg' t.special was := by
  obtain ⟨hstates, hreg, hspecial⟩ := dispatch_cases hd
  have hinv : Inv t (Function.update preempted srcBoxId (some (reg, s.special))) := by
    intro b was hwas
    rw [hstates]
    by_cases hb : b = srcBoxId
    · subst hb
      rw [Function.update_self] at hwas ⊢
      obtain rfl := Option.some.inj hwas
      exact holds_savedState reg s.special _
    · rw [Function.update_of_ne hb] at hwas ⊢
      exact h b was hwas
  refine ⟨hinv, fun was hwas => ?_⟩
  rw [hreg, hspecial]
  exact hinv dstBoxId was hwas reg

end Dispatch

/-! ## What holds in every run -/

section Runs

variable {sys : Platform} {r t : System}

theorem Inv.step (h : Inv r.state r.preempted) {a : Action} (hs : step sys r a = some t) :
    Inv t.state t.preempted := by
  cases a with
  | dispatch fuel dstBoxId reg =>
    obtain ⟨out, hd, rfl⟩ := Option.map_eq_some_iff.mp hs
    exact (h.dispatch hd).1
  | tick fuel reg =>
    obtain ⟨out, htick, rfl⟩ := Option.map_eq_some_iff.mp hs
    unfold schedulerTick schedulerDeltaAdd at htick
    dsimp only at htick ⊢
    have hrun := h.setRemaining r.state.ctx.activeBox
      ((r.state.currentStates r.state.ctx.activeBox).remainingMs-timeSliceMs)
    split_ifs at htick ⊢ with hexpired
    · obtain ⟨mid, hd, rfl⟩ := Option.map_eq_some_iff.mp htick
      have hnext : Inv {r.state.setRemaining r.state.ctx.activeBox
          ((r.state.currentStates r.state.ctx.activeBox).remainingMs-timeSliceMs) with
            nextBoxId := (r.state.nextBoxId+1)%sys.boxCount} r.preempted := hrun
      exact (hnext.dispatch hd).1.setRemaining _ _
    · cases htick
      exact hrun
  | others ctx special ipc virq sau =>
    cases hs
    exact h

theorem inv_reachable (h : Reachable Initial (step sys) (fun _ _ => True) r) :
    Inv r.state r.preempted := by
  refine h.invariant (fun r => Inv r.state r.preempted) (fun r hinit box was hwas => ?_)
    fun _ _ _ hinv _ hs => hinv.step hs
  rw [hinit box] at hwas
  cases hwas

/-- In every run a dispatch from the active box enters a box that has been
preempted with the registers that it had then. -/
theorem dispatch_lossless (h : Reachable Initial (step sys) (fun _ _ => True) r)
    {fuel dstBoxId : ℕ} {reg reg' : SavedReg} {s : State}
    (hd : dispatch sys fuel dstBoxId r.state.ctx.activeBox reg r.state = some (reg', s))
    {was : SavedReg × SpecialReg} (hwas : r.preempt reg dstBoxId = some was) :
    Resumes reg' s.special was :=
  ((inv_reachable h).dispatch hd).2 was hwas

/-- Two boxes, no memory of which may be read for the IPC. -/
def twoBoxes : Platform where
  boxCount := 2
  ipc := ⟨2, fun _ => 0, fun _ _ _ => false⟩
  virq := SecureVirq.smallDevice
  regions := SauPriority.sauBoxes
  geometry := SauPriority.sauPages

/-- No box has been preempted, and box 0 is active. -/
def bootedSystem : System where
  state :=
    { ctx := ⟨0, 0, fun _ => ⟨0, .unboundFirst, 0⟩, fun _ => ⟨0, 0⟩, fun _ => ⟨0, 0, 0, 0⟩, 0, 0, 0⟩
      currentStates := fun _ => default
      nextBoxId := 1
      special := ⟨0x20001000, 0x20000800, 0x20000C00, 0x20000400, 2, 0, 0, 1⟩
      ipc := ⟨fun _ => IpcTermination.zeroIpc, fun _ => ⟨0, 0, 0, 0⟩, fun _ => 0⟩
      virq := SecureVirq.bootedDevice.state
      sau := SauPriority.bootedRun.unit }
  preempted := fun _ => none

/-- A frame of a box that was preempted in the secure state. -/
def secureFrame : SavedReg :=
  ⟨4, 5, 6, 7, 8, 9, 10, 11, 0xFFFFFFF9, 0, 1, 2, 3, 12, 0x11, 0x21, 0x01000000⟩

/-- A frame of a box that was preempted in the non-secure state. -/
def nonSecureFrame : SavedReg := ⟨0, 0, 0, 0, 0, 0, 0, 0, 0xFFFFFFBC, 0, 0, 0, 0, 0, 0, 0, 0⟩

/-- Box 0 is preempted in the secure state. After box 1 has run, box 0 is entered
with its registers. -/
theorem dispatch_lossless_twoBoxes : ∃ r reg s,
    exec (step twoBoxes) [.dispatch 0 1 secureFrame] bootedSystem = some r ∧
      dispatch twoBoxes 0 0 1 nonSecureFrame r.state = some (reg, s) ∧
      Resumes reg s.special (secureFrame, bootedSystem.state.special) := by
  have hrun : ((exec (step twoBoxes) [.dispatch 0 1 secureFrame] bootedSystem).bind fun r =>
      (dispatch twoBoxes 0 0 1 nonSecureFrame r.state).map fun _ =>
        (r.state.ctx.activeBox, r.preempt nonSecureFrame 0)) =
      some (1, some (secureFrame, bootedSystem.state.special)) := by decide +kernel
  obtain ⟨r, hr, hmap⟩ := Option.bind_eq_some_iff.mp hrun
  obtain ⟨⟨reg, s⟩, hd, hboth⟩ := Option.map_eq_some_iff.mp hmap
  obtain ⟨hactive, hwas⟩ := Prod.mk.inj hboth
  rw [← hactive] at hd
  have hresumes := dispatch_lossless (exec_reachable (.start fun _ => rfl) hr) hd hwas
  rw [hactive] at hd
  exact ⟨r, reg, s, hr, hd, hresumes⟩

end Runs

end Uvisor.Scheduler
