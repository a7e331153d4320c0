import Uvisor.BoxInit

/-!
# Halting and the debug box

One box may register a driver whose handler is called when the monitor halts.
The first halt enters the handler in the debug box, and every other one loops
forever. On ARMv8-M the handler is called and the halt never ends. On ARMv7-M
the handler is only what the next return from an exception enters, and the
function that has halted goes on until then.
-/

namespace Uvisor.DebugBox

open Context Interrupts BoxInit Execution

/-! ## State -/

/-- The two implementations. -/
inductive Core where
  | armv7m
  | armv8m
  deriving DecidableEq

/-- Constants of a booted system. -/
structure Device where
  /-- The implementation. -/
  core : Core
  /-- Boxes, priorities and flash. -/
  sys : BoxInit.Platform
  /-- Words in flash. -/
  flash : Word → Word
  /-- Address of debug_die. -/
  debugDie : Word

/-- TDebugBox. -/
structure TDebugBox where
  /-- The driver, a table of handlers. -/
  driver : Word
  /-- Whether there is a debug box. -/
  initialized : Bool
  /-- The debug box. -/
  boxId : ℕ

/-- Variables, memory and registers. -/
structure State where
  /-- The active box and the stack of contexts. -/
  ctx : Context.State
  /-- Memory. -/
  mem : Memory
  /-- BASEPRI. -/
  basepri : BitVec 8
  /-- Whether the operating system has been suspended. -/
  osSuspended : Bool
  /-- g_debug_box. -/
  debugBox : TDebugBox
  /-- Whether a halt has been handed over to the debug box. -/
  debuggedOnceBefore : Bool

/-- How a call ends. -/
inductive Outcome where
  /-- The monitor loops forever. -/
  | loops
  /-- The monitor goes on. -/
  | goesOn (s : State)
  /-- The handler of the debug box runs, and the call never goes on. -/
  | handles (s : State)
  /-- The system is reset. -/
  | reboots

/-- What comes after a call happens only if the call goes on. -/
def Outcome.andThen (o : Outcome) (rest : State → Outcome) : Outcome :=
  match o with
  | .goesOn s => rest s
  | o => o

/-! ## Halting -/

/-- HALT_NO_ERROR, PERMISSION_DENIED, SANITY_CHECK_FAILED and so on. -/
abbrev HaltError := Word

/-- SANITY_CHECK_FAILED. -/
def sanityCheckFailed : HaltError := 2

/-- NOT_ALLOWED. -/
def notAllowed : HaltError := 4

/-- __TRESETREASON_MAX. -/
def tResetReasonMax : ℕ := 2

/-- DEBUG_BOX_HANDLERS_NUMBER. -/
def debugBoxHandlersNumber : ℕ := 2

/-- The frame for the handler of the debug box. -/
def debugFrame (d : Device) (debugHandler a0 : Word) (s : State) : Word × Memory :=
  let srcSp := s.ctx.psp
  let xpsr := s.mem (srcSp+28)
  let forged := contextForgeExcSf srcSp s.debugBox.boxId debugHandler d.debugDie xpsr 0 s.mem s.ctx
  let mem := Function.update forged.2 forged.1 a0
  let mem := Function.update mem (forged.1+4) 0
  let mem := Function.update mem (forged.1+8) 0
  (forged.1, Function.update mem (forged.1+12) 0)

/-- debug_deprivilege_and_return. An exception frame that cannot be read and a
full stack of contexts halt again, which then loops. -/
def debugDeprivilegeAndReturn (d : Device) (debugHandler a0 : Word) (s : State) : Outcome :=
  match d.core with
  | .armv7m =>
    if frameReadable d.sys s.ctx.activeBox s.ctx.psp = false then .loops
    else
      let (dstSp, mem) := debugFrame d debugHandler a0 s
      let basepri := nvicMinPriority <<< (8-d.sys.prioBits)
      match contextSwitchIn d.sys.boxCount .functionDebug s.debugBox.boxId s.ctx.psp dstSp
        s.ctx with
      | none => .loops
      | some ctx => .goesOn {s with ctx, mem, basepri, osSuspended := true}
  | .armv8m =>
    match contextSwitchIn d.sys.boxCount .unboundThread s.debugBox.boxId 0 0 s.ctx with
    | none => .loops
    | some ctx => .handles {s with ctx}

/-- The entry of the driver for halts. -/
def haltHandler (d : Device) (driver : Word) : Word := d.flash (driver+4)

/-- debug_halt_error. -/
def debugHaltError (d : Device) (reason : HaltError) (s : State) : Outcome :=
  if s.debugBox.initialized = false ∨ s.debuggedOnceBefore = true then .loops
  else
    debugDeprivilegeAndReturn d (haltHandler d s.debugBox.driver) reason
      {s with debuggedOnceBefore := true}

/-- HALT_ERROR where a check fails. -/
def haltUnless (d : Device) (check : Bool) (reason : HaltError) (s : State) : Outcome :=
  if check then .goesOn s else debugHaltError d reason s

/-- debug_reboot. A halt that goes on ends in the reset as well. -/
def debugReboot (d : Device) (reason : ℕ) (s : State) : Outcome :=
  (haltUnless d (s.debugBox.initialized && s.ctx.activeBox == s.debugBox.boxId &&
    decide (reason < tResetReasonMax)) notAllowed s).andThen fun _ => .reboots

/-- The checks of one handler in the table of a driver. -/
def checkHandler (d : Device) (handler : Word) (s : State) : Outcome :=
  (haltUnless d (vmpuPublicFlashAddr d.sys handler) sanityCheckFailed s).andThen
    (haltUnless d (handler ≠ 0) sanityCheckFailed)

/-- The checks of the handlers from the first one on. -/
def checkHandlers (d : Device) (driver : Word) : ℕ → State → Outcome
  | 0, s => .goesOn s
  | i+1, s =>
    (checkHandlers d driver i s).andThen (checkHandler d (d.flash (driver+4*BitVec.ofNat 32 i)))

/-- The checks of a driver. -/
def checkDriver (d : Device) (driver : Word) (s : State) : Outcome :=
  (haltUnless d (vmpuPublicFlashAddr d.sys driver &&
    vmpuPublicFlashAddr d.sys (driver+4*BitVec.ofNat 32 debugBoxHandlersNumber))
    sanityCheckFailed s).andThen fun s =>
  (haltUnless d (driver ≠ 0) sanityCheckFailed s).andThen fun s =>
    checkHandlers d driver debugBoxHandlersNumber s

/-- debug_register_driver. -/
def debugRegisterDriver (d : Device) (driver : Word) (s : State) : Outcome :=
  (haltUnless d (!s.debugBox.initialized) notAllowed s).andThen fun s =>
  (checkDriver d driver s).andThen fun s =>
    .goesOn {s with debugBox := ⟨driver, true, s.ctx.activeBox⟩}

/-! ## Runs -/

/-- What happens in a system that has booted. -/
inductive Action where
  /-- The active box registers a driver. -/
  | debugInit (driver : Word)
  /-- The active box asks for a reset. -/
  | systemReset (reason : ℕ)
  /-- The monitor halts elsewhere. -/
  | haltError (reason : HaltError)
  /-- Anything else, which does not write the variables of the debug box. -/
  | others (ctx : Context.State) (mem : Memory) (basepri : BitVec 8) (osSuspended : Bool)

/-- The state in which a call leaves the system, if it still runs. -/
def Outcome.state : Outcome → Option State
  | .goesOn s => some s
  | .handles s => some s
  | .loops => none
  | .reboots => none

/-- One step. There is no result when the monitor loops or the system is reset. -/
def step (d : Device) (s : State) : Action → Option State
  | .debugInit driver => (debugRegisterDriver d driver s).state
  | .systemReset reason => (debugReboot d reason s).state
  | .haltError reason => (debugHaltError d reason s).state
  | .others ctx mem basepri osSuspended => some {s with ctx, mem, basepri, osSuspended}

/-- Before a debug box has been registered. -/
structure Initial (s : State) : Prop where
  /-- There is no debug box. -/
  initialized : s.debugBox.initialized = false
  /-- Nothing has been handed over. -/
  debuggedOnceBefore : s.debuggedOnceBefore = false

/-! ## Statements -/

/-- A driver whose table and whose handlers are in public flash. -/
structure ValidDriver (d : Device) (driver : Word) : Prop where
  /-- It is not null. -/
  driver_ne : driver ≠ 0
  /-- It starts in public flash. -/
  first : vmpuPublicFlashAddr d.sys driver = true
  /-- The word behind it is in public flash as well. -/
  last : vmpuPublicFlashAddr d.sys (driver+4*BitVec.ofNat 32 debugBoxHandlersNumber) = true
  /-- So are its handlers, and none of them is null. -/
  handlers : ∀ i < debugBoxHandlersNumber,
    vmpuPublicFlashAddr d.sys (d.flash (driver+4*BitVec.ofNat 32 i)) = true ∧
      d.flash (driver+4*BitVec.ofNat 32 i) ≠ 0

/-- The handler of the debug box has been called with the reason of a halt. -/
structure Called (d : Device) (reason : HaltError) (s t : State) : Prop where
  /-- The debug box is active. -/
  activeBox : t.ctx.activeBox = s.debugBox.boxId
  /-- The next exception return enters its handler with that reason. The handler
  returns to a function that never ends, and meanwhile no interrupt of lower
  priority is taken. -/
  frame : d.core = .armv7m → t.mem t.ctx.psp = reason ∧
    t.mem (t.ctx.psp+24) = haltHandler d s.debugBox.driver ||| 1 ∧
    t.mem (t.ctx.psp+20) = d.debugDie ||| 1 ∧
    t.basepri = nvicMinPriority <<< (8-d.sys.prioBits) ∧ t.osSuspended = true

/-- The debug box can be entered from a state. -/
structure Enterable (d : Device) (s : State) : Prop where
  /-- There is a debug box. -/
  initialized : s.debugBox.initialized = true
  /-- Nothing has been handed over to it. -/
  first : s.debuggedOnceBefore = false
  /-- The active box is one of the boxes. -/
  activeBox : s.ctx.activeBox < d.sys.boxCount
  /-- So is the debug box. -/
  boxId : s.debugBox.boxId < d.sys.boxCount
  /-- On ARMv7-M the active box can read its frame, and there is room for one
  more context. -/
  frame : d.core = .armv7m → frameReadable d.sys s.ctx.activeBox s.ctx.psp = true ∧
    s.ctx.contextP < contextMaxDepth

/-! ## One halt -/

section Halts

variable {d : Device} {s t : State} {reason : HaltError} {o : Outcome}

/-- The forged frame calls the handler. -/
theorem debugFrame_spec (d : Device) (debugHandler a0 : Word) (s : State) :
    (debugFrame d debugHandler a0 s).2 (debugFrame d debugHandler a0 s).1 = a0 ∧
      (debugFrame d debugHandler a0 s).2 ((debugFrame d debugHandler a0 s).1+24) =
        debugHandler ||| 1 ∧
      (debugFrame d debugHandler a0 s).2 ((debugFrame d debugHandler a0 s).1+20) =
        d.debugDie ||| 1 := by
  let forged := contextForgeExcSf s.ctx.psp s.debugBox.boxId debugHandler d.debugDie
    (s.mem (s.ctx.psp+28)) 0 s.mem s.ctx
  have hframe : ∀ offset : Word, offset = 20 ∨ offset = 24 →
      (debugFrame d debugHandler a0 s).2 (forged.1+offset) = forged.2 (forged.1+offset) := by
    intro offset hoffset
    have hne : ∀ i : Word, i = 0 ∨ i = 4 ∨ i = 8 ∨ i = 12 → forged.1+offset ≠ forged.1+i := by
      rintro i (rfl | rfl | rfl | rfl) <;> rcases hoffset with rfl | rfl <;> bv_omega
    have hfirst : forged.1+offset ≠ forged.1 := by
      rcases hoffset with rfl | rfl <;> bv_omega
    change Function.update (Function.update (Function.update (Function.update forged.2 forged.1 a0)
      (forged.1+4) 0) (forged.1+8) 0) (forged.1+12) 0 (forged.1+offset) = _
    rw [Function.update_of_ne (hne 12 (by simp)), Function.update_of_ne (hne 8 (by simp)),
      Function.update_of_ne (hne 4 (by simp)), Function.update_of_ne hfirst]
  refine ⟨?_, ?_, ?_⟩
  · change Function.update (Function.update (Function.update (Function.update forged.2 forged.1 a0)
      (forged.1+4) 0) (forged.1+8) 0) (forged.1+12) 0 forged.1 = a0
    have hne : ∀ i : Word, i = 4 ∨ i = 8 ∨ i = 12 → forged.1 ≠ forged.1+i := by
      rintro i (rfl | rfl | rfl) <;> bv_omega
    rw [Function.update_of_ne (hne 12 (by simp)), Function.update_of_ne (hne 8 (by simp)),
      Function.update_of_ne (hne 4 (by simp)), Function.update_self]
  · refine (hframe 24 (.inr rfl)).trans ?_
    change Function.update _ (forged.1+28) _ (forged.1+24) = _
    rw [Function.update_of_ne (by bv_omega)]
    exact Function.update_self ..
  · refine (hframe 20 (.inl rfl)).trans ?_
    change Function.update (Function.update _ (forged.1+24) _) (forged.1+28) _ (forged.1+20) = _
    rw [Function.update_of_ne (by bv_omega), Function.update_of_ne (by bv_omega)]
    exact Function.update_self ..

/-- A halt that does not loop has entered the debug box, and is the first one. -/
structure Handled (d : Device) (reason : HaltError) (s t : State) : Prop where
  /-- The debug box could be entered. -/
  enterable : Enterable d s
  /-- The handler has been called. -/
  called : Called d reason s t
  /-- The debug box stays. -/
  debugBox : t.debugBox = s.debugBox
  /-- There will be no other one. -/
  debuggedOnceBefore : t.debuggedOnceBefore = true

/-- How a halt ends that has entered the debug box. -/
def entered (d : Device) (t : State) : Outcome :=
  match d.core with
  | .armv7m => .goesOn t
  | .armv8m => .handles t

/-- A halt enters the debug box when it can be entered. -/
theorem debugHaltError_enters (h : Enterable d s) (reason : HaltError) :
    ∃ t, debugHaltError d reason s = entered d t ∧ Handled d reason s t := by
  have hfirst : ¬(s.debugBox.initialized = false ∨ s.debuggedOnceBefore = true) := by
    simp [h.initialized, h.first]
  cases hcore : d.core with
  | armv7m =>
    obtain ⟨hreadable, hdepth⟩ := h.frame hcore
    obtain ⟨ctx, hctx⟩ := @contextSwitchIn_some _ .functionDebug _ s.ctx.psp
      (debugFrame d (haltHandler d s.debugBox.driver) reason
        {s with debuggedOnceBefore := true}).1 _ rfl h.activeBox h.boxId hdepth
    have hin := contextSwitchIn_entered rfl h.activeBox hctx
    obtain ⟨hargument, hfunction, hreturn⟩ := debugFrame_spec d
      (haltHandler d s.debugBox.driver) reason {s with debuggedOnceBefore := true}
    refine ⟨{s with
        ctx
        mem := (debugFrame d (haltHandler d s.debugBox.driver) reason
          {s with debuggedOnceBefore := true}).2
        basepri := nvicMinPriority <<< (8-d.sys.prioBits)
        osSuspended := true
        debuggedOnceBefore := true}, ?_, h, ⟨hin.activeBox, fun _ => ?_⟩, rfl, rfl⟩
    · simp only [debugHaltError, if_neg hfirst, debugDeprivilegeAndReturn, hcore, hreadable,
        Bool.true_eq_false, if_false, hctx, entered]
    · dsimp only
      rw [hin.psp]
      exact ⟨hargument, hfunction, hreturn, rfl, rfl⟩
  | armv8m =>
    have hctx := @contextSwitchIn_unboundThread _ _ 0 0 _ h.activeBox h.boxId
    refine ⟨{s with ctx := switched s.debugBox.boxId s.ctx, debuggedOnceBefore := true}, ?_, h,
      ⟨switched_activeBox _ _, fun hv7 => ?_⟩, rfl, rfl⟩
    · simp only [debugHaltError, if_neg hfirst, debugDeprivilegeAndReturn, hcore, hctx, entered]
    · cases hcore.symm.trans hv7

/-- A switch between boxes has a source and a destination. -/
theorem valid_of_contextSwitchIn {boxCount dstId : ℕ} {contextType : SwitchType}
    {srcSp dstSp : Word} {c c' : Context.State} (htype : contextType ≠ .unboundFirst)
    (h : contextSwitchIn boxCount contextType dstId srcSp dstSp c = some c') :
    c.activeBox < boxCount ∧ dstId < boxCount := by
  unfold contextSwitchIn sourceBox vmpuIsBoxIdValid at h
  by_cases hactive : c.activeBox < boxCount
  · by_cases hdst : dstId < boxCount
    · exact ⟨hactive, hdst⟩
    · simp [hactive, hdst] at h
  · simp [hactive, htype] at h

/-- Every other halt loops forever. -/
theorem debugHaltError_loops (h : ¬Enterable d s) (reason : HaltError) :
    debugHaltError d reason s = .loops := by
  unfold debugHaltError
  split
  · rfl
  rename_i hfirst
  push Not at hfirst
  obtain ⟨hinit, honce⟩ := hfirst
  have hinit : s.debugBox.initialized = true := by simpa using hinit
  have honce : s.debuggedOnceBefore = false := by simpa using honce
  unfold debugDeprivilegeAndReturn
  split
  · split
    · rfl
    rename_i hreadable
    dsimp only
    split
    · rfl
    rename_i ctx hctx
    obtain ⟨hactive, hbox⟩ := valid_of_contextSwitchIn (by decide) hctx
    have hin := contextSwitchIn_entered rfl hactive hctx
    exact absurd ⟨hinit, honce, hactive, hbox, fun _ => ⟨by simpa using hreadable, hin.depth_lt⟩⟩ h
  · rename_i hcore
    dsimp only
    split
    · rfl
    rename_i ctx hctx
    obtain ⟨hactive, hbox⟩ := valid_of_contextSwitchIn (by decide) hctx
    exact absurd ⟨hinit, honce, hactive, hbox,
      fun hv7 => absurd (hcore.symm.trans hv7) (by decide)⟩ h

/-- After the first halt the debug box cannot be entered any more. -/
theorem Handled.not_enterable (h : Handled d reason s t) : ¬Enterable d t := fun hentry =>
  absurd (hentry.first.symm.trans h.debuggedOnceBefore) Bool.false_ne_true

/-- Where the debug box cannot be entered, a check that fails loops. -/
theorem haltUnless_eq (h : ¬Enterable d s) (check : Bool) (reason : HaltError) :
    haltUnless d check reason s = if check then .goesOn s else .loops := by
  rw [haltUnless, debugHaltError_loops h]

end Halts

/-! ## Registration -/

section Registration

variable {d : Device} {s t : State} {driver : Word}

theorem checkHandler_eq (h : ¬Enterable d s) (handler : Word) :
    checkHandler d handler s =
      if vmpuPublicFlashAddr d.sys handler = true ∧ handler ≠ 0 then .goesOn s else .loops := by
  rw [checkHandler, haltUnless_eq h]
  by_cases hflash : vmpuPublicFlashAddr d.sys handler = true
  · rw [if_pos hflash, Outcome.andThen, haltUnless_eq h]
    simp [hflash]
  · rw [if_neg hflash, if_neg (fun hboth => hflash hboth.1)]
    rfl

theorem checkHandlers_eq (h : ¬Enterable d s) (driver : Word) (n : ℕ) :
    checkHandlers d driver n s =
      if ∀ i < n, vmpuPublicFlashAddr d.sys (d.flash (driver+4*BitVec.ofNat 32 i)) = true ∧
        d.flash (driver+4*BitVec.ofNat 32 i) ≠ 0 then .goesOn s else .loops := by
  induction n with
  | zero => simp [checkHandlers]
  | succ n ih =>
    rw [checkHandlers, ih]
    split
    · rename_i hall
      rw [Outcome.andThen, checkHandler_eq h]
      refine if_congr ⟨fun hlast i hi => ?_, fun hall => hall n (Nat.lt_succ_self n)⟩ rfl rfl
      rcases Nat.lt_succ_iff_lt_or_eq.mp hi with hlt | rfl
      · exact hall i hlt
      · exact hlast
    · rename_i hsome
      rw [if_neg fun hall => hsome fun i hi => hall i (Nat.lt_succ_of_lt hi)]
      rfl

/-- The checks let valid drivers pass, and the others loop. -/
theorem checkDriver_spec (h : ¬Enterable d s) (driver : Word) :
    (ValidDriver d driver → checkDriver d driver s = .goesOn s) ∧
      (¬ValidDriver d driver → checkDriver d driver s = .loops) := by
  rw [checkDriver, haltUnless_eq h]
  refine ⟨fun hvalid => ?_, fun hinvalid => ?_⟩
  · rw [hvalid.first, hvalid.last, Bool.and_true, if_pos rfl, Outcome.andThen, haltUnless_eq h,
      if_pos (by simpa using hvalid.driver_ne), Outcome.andThen, checkHandlers_eq h,
      if_pos hvalid.handlers]
  · split
    swap
    · rfl
    rename_i hflash
    rw [Bool.and_eq_true] at hflash
    rw [Outcome.andThen, haltUnless_eq h]
    split
    swap
    · rfl
    rename_i hne
    rw [Outcome.andThen, checkHandlers_eq h]
    exact if_neg fun hall => hinvalid ⟨by simpa using hne, hflash.1, hflash.2, hall⟩

/-- The first driver is registered for the active box if it is valid. -/
theorem debugRegisterDriver_first (h : s.debugBox.initialized = false) (driver : Word) :
    (ValidDriver d driver → debugRegisterDriver d driver s =
      .goesOn {s with debugBox := ⟨driver, true, s.ctx.activeBox⟩}) ∧
    (¬ValidDriver d driver → debugRegisterDriver d driver s = .loops) := by
  have hentry : ¬Enterable d s := fun hentry =>
    absurd (h.symm.trans hentry.initialized) Bool.false_ne_true
  obtain ⟨hvalid, hinvalid⟩ := checkDriver_spec hentry driver
  rw [debugRegisterDriver, haltUnless, h, Bool.not_false, if_pos rfl, Outcome.andThen]
  refine ⟨fun hdriver => ?_, fun hdriver => ?_⟩
  · rw [hvalid hdriver]
    rfl
  · rw [hinvalid hdriver]
    rfl

/-- Any other registration halts. -/
theorem debugRegisterDriver_again (h : s.debugBox.initialized = true) (driver : Word) :
    debugRegisterDriver d driver s = (debugHaltError d notAllowed s).andThen fun s =>
      (checkDriver d driver s).andThen fun s =>
        .goesOn {s with debugBox := ⟨driver, true, s.ctx.activeBox⟩} := by
  rw [debugRegisterDriver, haltUnless, h]
  rfl

end Registration

/-! ## One step -/

/-- What one step does to the debug box. -/
inductive Changes (d : Device) (s t : State) : Prop where
  /-- A driver has been registered. -/
  | registered (driver : Word) (h : s.debugBox.initialized = false) (hvalid : ValidDriver d driver)
      (ht : t = {s with debugBox := ⟨driver, true, s.ctx.activeBox⟩})
  /-- A driver has been registered after a halt that has gone on. -/
  | replaced (driver : Word) (u : State) (hcore : d.core = .armv7m)
      (h : Handled d notAllowed s u) (hvalid : ValidDriver d driver)
      (ht : t = {u with debugBox := ⟨driver, true, u.ctx.activeBox⟩})
  /-- The monitor has halted. -/
  | handled (reason : HaltError) (h : Handled d reason s t)
  /-- Nothing has changed. -/
  | kept (hbox : t.debugBox = s.debugBox) (honce : t.debuggedOnceBefore = s.debuggedOnceBefore)

section Steps

variable {d : Device} {s t : State} {actions : List Action}

/-- A halt, and what comes after it if it goes on. -/
theorem debugHaltError_cases (d : Device) (reason : HaltError) (s : State) :
    (¬Enterable d s ∧ debugHaltError d reason s = .loops) ∨
      ∃ u, debugHaltError d reason s = entered d u ∧ Handled d reason s u := by
  by_cases h : Enterable d s
  · exact .inr (debugHaltError_enters h reason)
  · exact .inl ⟨h, debugHaltError_loops h reason⟩

theorem entered_state (d : Device) (t : State) : (entered d t).state = some t := by
  unfold entered
  cases d.core <;> rfl

theorem changes_debugInit {driver : Word}
    (h : (debugRegisterDriver d driver s).state = some t) : Changes d s t := by
  cases hinit : s.debugBox.initialized with
  | false =>
    obtain ⟨hvalid, hinvalid⟩ := @debugRegisterDriver_first d s hinit driver
    by_cases hdriver : ValidDriver d driver
    · rw [hvalid hdriver] at h
      exact .registered driver hinit hdriver (Option.some.inj h).symm
    · rw [hinvalid hdriver] at h
      cases h
  | true =>
    rw [debugRegisterDriver_again hinit] at h
    rcases debugHaltError_cases d notAllowed s with ⟨-, hloops⟩ | ⟨u, hentered, hhandled⟩
    · rw [hloops] at h
      cases h
    rw [hentered, entered] at h
    cases hcore : d.core with
    | armv7m =>
      obtain ⟨hvalid, hinvalid⟩ := checkDriver_spec hhandled.not_enterable driver
      rw [hcore, Outcome.andThen] at h
      by_cases hdriver : ValidDriver d driver
      · rw [hvalid hdriver] at h
        exact .replaced driver u hcore hhandled hdriver (Option.some.inj h).symm
      · rw [hinvalid hdriver] at h
        cases h
    | armv8m =>
      rw [hcore] at h
      obtain rfl := Option.some.inj h
      exact .handled notAllowed hhandled

/-- When a reset takes place. -/
theorem debugReboot_iff (d : Device) (reason : ℕ) (s : State) :
    debugReboot d reason s = .reboots ↔
      (s.debugBox.initialized = true ∧ s.ctx.activeBox = s.debugBox.boxId ∧
        reason < tResetReasonMax) ∨ (d.core = .armv7m ∧ Enterable d s) := by
  by_cases hallowed : s.debugBox.initialized = true ∧ s.ctx.activeBox = s.debugBox.boxId ∧
      reason < tResetReasonMax
  · simp [debugReboot, haltUnless, hallowed, Outcome.andThen]
  have hcheck : (s.debugBox.initialized && s.ctx.activeBox == s.debugBox.boxId &&
      decide (reason < tResetReasonMax)) = false := by
    simp only [Bool.and_eq_false_iff, beq_eq_false_iff_ne, decide_eq_false_iff_not]
    by_contra hall
    push Not at hall
    exact hallowed ⟨by simpa using hall.1.1, hall.1.2, hall.2⟩
  rw [debugReboot, haltUnless, hcheck, if_neg Bool.false_ne_true]
  rcases debugHaltError_cases d notAllowed s with ⟨hentry, hloops⟩ | ⟨u, hentered, hhandled⟩
  · rw [hloops]
    simp [Outcome.andThen, hallowed, hentry]
  · rw [hentered, entered]
    cases hcore : d.core <;> simp [Outcome.andThen, hallowed, hhandled.enterable]

theorem changes_step {a : Action} (h : step d s a = some t) : Changes d s t := by
  cases a with
  | debugInit driver => exact changes_debugInit h
  | systemReset reason =>
    simp only [step, debugReboot, haltUnless] at h
    split at h
    · cases h
    rcases debugHaltError_cases d notAllowed s with ⟨-, hloops⟩ | ⟨u, hentered, hhandled⟩
    · rw [hloops] at h
      cases h
    rw [hentered, entered] at h
    cases hcore : d.core <;> rw [hcore] at h
    · cases h
    · obtain rfl := Option.some.inj h
      exact .handled notAllowed hhandled
  | haltError reason =>
    simp only [step] at h
    rcases debugHaltError_cases d reason s with ⟨-, hloops⟩ | ⟨u, hentered, hhandled⟩
    · rw [hloops] at h
      cases h
    · rw [hentered, entered_state] at h
      obtain rfl := Option.some.inj h
      exact .handled reason hhandled
  | others ctx mem basepri osSuspended =>
    obtain rfl := Option.some.inj h
    exact .kept rfl rfl

end Steps

/-! ## Whole runs -/

/-- The variables of the debug box in a run. -/
structure Inv (d : Device) (s : State) : Prop where
  /-- The driver of the debug box is valid. -/
  driver : s.debugBox.initialized = true → ValidDriver d s.debugBox.driver
  /-- Only a debug box can have been entered. -/
  once : s.debuggedOnceBefore = true → s.debugBox.initialized = true

/-- From a state with a debug box to a later one. -/
structure Stays (d : Device) (s t : State) : Prop where
  /-- There is a debug box. -/
  initialized : t.debugBox.initialized = true
  /-- It is the same one. -/
  boxId : t.debugBox.boxId = s.debugBox.boxId
  /-- A halt that has been handed over is not forgotten. -/
  once : s.debuggedOnceBefore = true → t.debuggedOnceBefore = true
  /-- The driver is the same one, or it has been replaced on ARMv7-M in the call
  that has made the first halt. -/
  driver : t.debugBox.driver = s.debugBox.driver ∨
    d.core = .armv7m ∧ s.debuggedOnceBefore = false ∧ t.debuggedOnceBefore = true

section Runs

variable {d : Device} {s t u : State} {actions : List Action}

theorem inv_initial (h : Initial s) : Inv d s := by
  refine ⟨fun hinit => ?_, fun honce => ?_⟩
  · rw [h.initialized] at hinit
    cases hinit
  · rw [h.debuggedOnceBefore] at honce
    cases honce

theorem Inv.handled {reason : HaltError} (h : Inv d s) (hhandled : Handled d reason s t) :
    Inv d t := by
  refine ⟨fun _ => ?_, fun _ => ?_⟩
  · rw [hhandled.debugBox]
    exact h.driver hhandled.enterable.initialized
  · rw [hhandled.debugBox]
    exact hhandled.enterable.initialized

theorem inv_changes (h : Inv d s) (hchanges : Changes d s t) : Inv d t := by
  cases hchanges with
  | registered driver hinit hvalid ht =>
    subst ht
    exact ⟨fun _ => hvalid, fun _ => rfl⟩
  | replaced driver u hcore hhandled hvalid ht =>
    subst ht
    exact ⟨fun _ => hvalid, fun _ => rfl⟩
  | handled reason hhandled => exact h.handled hhandled
  | kept hbox honce =>
    refine ⟨fun hinit => ?_, fun hset => ?_⟩
    · rw [hbox] at hinit ⊢
      exact h.driver hinit
    · rw [hbox]
      exact h.once (honce ▸ hset)

theorem inv_reachable (h : Reachable Initial (step d) (fun _ _ => True) s) : Inv d s :=
  h.invariant (Inv d) (fun _ => inv_initial) fun _ _ _ hi _ hs => inv_changes hi (changes_step hs)

theorem Stays.refl (h : s.debugBox.initialized = true) : Stays d s s :=
  ⟨h, rfl, id, .inl rfl⟩

theorem Stays.trans (h : Stays d s t) (h' : Stays d t u) : Stays d s u := by
  refine ⟨h'.initialized, h'.boxId.trans h.boxId, fun honce => h'.once (h.once honce), ?_⟩
  rcases h.driver with hsame | ⟨hcore, hfirst, honce⟩
  · rcases h'.driver with hsame' | ⟨hcore, hfirst, honce⟩
    · exact .inl (hsame'.trans hsame)
    · refine .inr ⟨hcore, ?_, honce⟩
      by_contra hset
      rw [h.once (by simpa using hset)] at hfirst
      cases hfirst
  · exact .inr ⟨hcore, hfirst, h'.once honce⟩

/-- The debug box stays in one step. -/
theorem stays_changes (h : s.debugBox.initialized = true) (hchanges : Changes d s t) :
    Stays d s t := by
  cases hchanges with
  | registered driver hinit hvalid ht => cases hinit.symm.trans h
  | replaced driver u hcore hhandled hvalid ht =>
    subst ht
    -- the switch to the debug box has made it the active one
    exact ⟨rfl, hhandled.called.activeBox, fun _ => hhandled.debuggedOnceBefore,
      .inr ⟨hcore, hhandled.enterable.first, hhandled.debuggedOnceBefore⟩⟩
  | handled reason hhandled =>
    exact ⟨hhandled.debugBox ▸ h, congrArg TDebugBox.boxId hhandled.debugBox,
      fun _ => hhandled.debuggedOnceBefore, .inl (congrArg TDebugBox.driver hhandled.debugBox)⟩
  | kept hbox honce =>
    exact ⟨hbox ▸ h, congrArg TDebugBox.boxId hbox, fun hset => honce.trans hset,
      .inl (congrArg TDebugBox.driver hbox)⟩

theorem stays_exec (h : s.debugBox.initialized = true) (hrun : exec (step d) actions s = some t) :
    Stays d s t := by
  induction actions generalizing s with
  | nil =>
    obtain rfl := Option.some.inj hrun
    exact .refl h
  | cons a actions ih =>
    obtain ⟨u, hstep, hrest⟩ := Option.bind_eq_some_iff.mp hrun
    have hstays := stays_changes h (changes_step hstep)
    exact hstays.trans (ih hstays.initialized hrest)

/-- In every run the box that has registered the first driver stays the debug
box, and its driver is valid at all times. Another driver can take its place on
ARMv7-M only, once, and in the call that makes the first halt. -/
theorem debug_box_fixed (h : Reachable Initial (step d) (fun _ _ => True) s)
    (hinit : s.debugBox.initialized = true) (hrun : exec (step d) actions s = some t) :
    t.debugBox.initialized = true ∧ t.debugBox.boxId = s.debugBox.boxId ∧
      ValidDriver d t.debugBox.driver ∧
      (t.debugBox.driver = s.debugBox.driver ∨
        d.core = .armv7m ∧ s.debuggedOnceBefore = false ∧ t.debuggedOnceBefore = true) := by
  have hstays := stays_exec hinit hrun
  exact ⟨hstays.initialized, hstays.boxId,
    (inv_reachable (exec_reachable h hrun)).driver hstays.initialized, hstays.driver⟩

/-- In every run the system is reset for the box that has registered the first
driver, when it gives a reason that exists. On ARMv7-M it is reset for every
other box as well, as long as the debug box can be entered: the halt goes on. -/
theorem reboots_iff_debug_box (hinit : s.debugBox.initialized = true)
    (hrun : exec (step d) actions s = some t) (reason : ℕ) :
    debugReboot d reason t = .reboots ↔
      (t.ctx.activeBox = s.debugBox.boxId ∧ reason < tResetReasonMax) ∨
        (d.core = .armv7m ∧ Enterable d t) := by
  have hstays := stays_exec hinit hrun
  rw [debugReboot_iff, hstays.boxId]
  simp [hstays.initialized]

end Runs

/-! ## Four boxes -/

/-- Two drivers in public flash, on a device with one of the implementations. -/
def fourBoxes (core : Core) : Device where
  core := core
  sys := sampleDevice 4 (by decide)
  flash := fun _ => 0x401
  debugDie := 0x501

/-- Box 1 is active after a boot. -/
def booted : State where
  ctx := {sampleStart.ctx with activeBox := 1}
  mem := sampleStart.mem
  basepri := 0
  osSuspended := false
  debugBox := ⟨0, false, 0⟩
  debuggedOnceBefore := false

/-- Box 1 registers a driver, and box 2 becomes active. -/
def registered (core : Core) : State :=
  (exec (step (fourBoxes core))
    [.debugInit 0x300, .others {booted.ctx with activeBox := 2} booted.mem 0 false] booted).getD
    booted

theorem registered_reachable (core : Core) :
    Reachable Initial (step (fourBoxes core)) (fun _ _ => True) (registered core) := by
  have hrun : (exec (step (fourBoxes core)) [.debugInit 0x300,
      .others {booted.ctx with activeBox := 2} booted.mem 0 false] booted).isSome := by
    cases core <;> decide
  obtain ⟨s, hs⟩ := Option.isSome_iff_exists.mp hrun
  rw [registered, hs]
  exact exec_reachable (.start ⟨rfl, rfl⟩) hs

theorem registered_enterable (core : Core) : Enterable (fourBoxes core) (registered core) where
  initialized := by cases core <;> decide
  first := by cases core <;> decide
  activeBox := by cases core <;> decide
  boxId := by cases core <;> decide
  frame := by cases core <;> decide

/-- Box 2 registers another driver on ARMv7-M. The debug box is still box 1. -/
theorem debug_box_fixed_replaced :
    ∃ t, exec (step (fourBoxes .armv7m)) [.debugInit 0x310] (registered .armv7m) = some t ∧
      t.debugBox.driver = 0x310 ∧ t.debugBox.initialized = true ∧
      t.debugBox.boxId = (registered .armv7m).debugBox.boxId ∧
      ValidDriver (fourBoxes .armv7m) t.debugBox.driver ∧
      (t.debugBox.driver = (registered .armv7m).debugBox.driver ∨
        (fourBoxes .armv7m).core = .armv7m ∧ (registered .armv7m).debuggedOnceBefore = false ∧
          t.debuggedOnceBefore = true) := by
  have hrun : ((exec (step (fourBoxes .armv7m)) [.debugInit 0x310] (registered .armv7m)).map
      fun t => t.debugBox.driver) = some 0x310 := by decide
  obtain ⟨t, ht, hdriver⟩ := Option.map_eq_some_iff.mp hrun
  exact ⟨t, ht, hdriver, debug_box_fixed (registered_reachable .armv7m) (by decide) ht⟩

/-- Box 2 resets the system on ARMv7-M, but not on ARMv8-M. -/
theorem reboots_iff_foreign :
    debugReboot (fourBoxes .armv7m) 0 (registered .armv7m) = .reboots ∧
      debugReboot (fourBoxes .armv8m) 0 (registered .armv8m) ≠ .reboots := by
  have hrun : ∀ core, exec (step (fourBoxes core)) [] (registered core) = some (registered core) :=
    fun _ => rfl
  refine ⟨?_, fun hreset => ?_⟩
  · exact (reboots_iff_debug_box (by decide) (hrun .armv7m) 0).mpr
      (.inr ⟨rfl, registered_enterable .armv7m⟩)
  · rcases (reboots_iff_debug_box (by decide) (hrun .armv8m) 0).mp hreset with
      ⟨hactive, -⟩ | ⟨hcore, -⟩
    · exact absurd hactive (by decide)
    · cases hcore

end Uvisor.DebugBox
