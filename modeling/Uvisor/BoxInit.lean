import Uvisor.Interrupts
import Mathlib.Data.List.Range

/-!
# The chain of box initializations

Box 0 asks for the initialization of the secure boxes once. The monitor enters
the handler in the first box that has a configuration, and each handler
returns into a thunk whose supervisor call switches out and enters the handler
in the next box. Interrupts of lower priority are masked meanwhile. When no box
is left, the last switch-out has gone back to box 0 and the interrupts are
unmasked, except on a device that has no other box at all: there the first
call ends the chain at once and leaves the interrupts masked.
-/

namespace Uvisor.BoxInit

open Context Interrupts

/-! ## State -/

/-- Constants of a booted system with its configuration in flash. -/
structure Platform where
  /-- g_vmpu_box_count. -/
  boxCount : ℕ
  /-- The number of boxes is a byte. -/
  boxCount_lt : boxCount < 256
  /-- __NVIC_PRIO_BITS, the number of priority bits that are implemented. -/
  prioBits : ℕ
  /-- The architecture has at least this many. -/
  prioBits_ge : 3 ≤ prioBits
  /-- A priority is a byte. -/
  prioBits_le : prioBits ≤ 8
  /-- Start of flash. -/
  flashStart : Word
  /-- End of public flash. -/
  secureStart : Word
  /-- The initialization handler, null when there is none. -/
  boxInit : Word
  /-- Address of box_init_thunk. -/
  boxInitThunk : Word
  /-- lib_config of each box, null when there is none. -/
  libConfig : ℕ → Word
  /-- Whether code of a box can read an address. -/
  canRead : ℕ → Word → Bool

/-- Variables, memory and registers of the chain. -/
structure State where
  /-- The active box and the stack of contexts. -/
  ctx : Context.State
  /-- Memory. -/
  mem : Memory
  /-- BASEPRI. -/
  basepri : BitVec 8
  /-- g_box_init_happened. -/
  happened : Bool
  /-- g_box_init_counter. -/
  counter : ℕ
  /-- g_box_init_box0_sp. -/
  box0Sp : Word

/-! ## The chain -/

/-- __UVISOR_NVIC_MIN_PRIORITY. -/
def nvicMinPriority : BitVec 8 := 2

/-- Mask the interrupts of lower priority than supervisor calls. -/
def boxInitPre (sys : Platform) (s : State) : State :=
  {s with basepri := nvicMinPriority <<< (8-sys.prioBits)}

/-- Unmask the interrupts. -/
def boxInitPost (s : State) : State := {s with basepri := 0}

/-- Whether an address lies in public flash. -/
def vmpuPublicFlashAddr (sys : Platform) (addr : Word) : Bool :=
  sys.flashStart ≤ addr && addr ≤ sys.secureStart-4

/-- Whether the active box can read a frame, with the word that aligns it. -/
def frameReadable (sys : Platform) (box : ℕ) (sp : Word) : Bool :=
  (List.range 8).all (fun i => sys.canRead box (sp+4*BitVec.ofNat 32 i)) &&
    (sp &&& 4 = 0 || sys.canRead box (sp+excSfBytes))

/-- context_validate_exc_sf. A frame that cannot be read is a fault. -/
def contextValidateExcSf (sys : Platform) (excSp : Word) (s : State) : Option Word :=
  if frameReadable sys s.ctx.activeBox excSp then some excSp else none

/-- The search for the next box that has a configuration. -/
def searchBox (sys : Platform) : ℕ → ℕ → ℕ
  | 0, dstId => dstId
  | boxes+1, dstId =>
    if dstId < sys.boxCount then
      if sys.libConfig dstId ≠ 0 then dstId else searchBox sys boxes (dstId+1)
    else dstId

/-- The box to initialize after another one, or the number of boxes. -/
def nextBox (sys : Platform) (counter : ℕ) : ℕ := searchBox sys sys.boxCount (counter+1)

/-- The part of a step that goes back to box 0, unless it is the first one. -/
def returnToBox0 (srcSp : Word) (s : State) : Option State :=
  if s.counter = 0 then some {s with box0Sp := srcSp}
  else
    let ctx := contextDiscardExcSf s.ctx.activeBox srcSp s.mem s.ctx
    (contextSwitchOut .functionGateway ctx).map fun out => {s with ctx := out.2}

/-- The part of a step that enters the handler in a box. -/
def enterHandler (sys : Platform) (dstId : ℕ) (s : State) : Option (Bool × State) :=
  let s := {s with counter := dstId}
  let xpsr := s.mem (s.box0Sp+28)
  let forged := contextForgeExcSf s.box0Sp dstId sys.boxInit sys.boxInitThunk xpsr 0 s.mem s.ctx
  let libConfig := sys.libConfig dstId
  if vmpuPublicFlashAddr sys libConfig = false then none
  else
    let mem := Function.update forged.2 forged.1 libConfig
    (contextSwitchIn sys.boxCount .functionGateway dstId s.box0Sp forged.1 s.ctx).map fun ctx =>
      (s.happened, {s with ctx, mem})

/-- box_init_context_switch_next. The first result says whether the chain has
ended. The result is missing where the system halts. -/
def boxInitContextSwitchNext (sys : Platform) (srcSvcSp : Word) (s : State) :
    Option (Bool × State) :=
  if s.happened then none
  else if sys.boxCount = 1 then some (true, {s with happened := true})
  else if s.ctx.activeBox ≠ s.counter then none
  else if sys.boxInit = 0 then none
  else if vmpuPublicFlashAddr sys sys.boxInit = false then none
  else
    let dstId := nextBox sys s.counter
    (contextValidateExcSf sys srcSvcSp s).bind fun srcSp =>
      (returnToBox0 srcSp s).bind fun s =>
        if sys.boxCount ≤ dstId then some (true, boxInitPost {s with happened := true})
        else enterHandler sys dstId s

/-- box_init_next. -/
def boxInitNext (sys : Platform) (srcSvcSp : Word) (s : State) : Option (Bool × State) :=
  boxInitContextSwitchNext sys srcSvcSp s

/-- box_init_first. -/
def boxInitFirst (sys : Platform) (srcSvcSp : Word) (s : State) : Option (Bool × State) :=
  boxInitNext sys srcSvcSp (boxInitPre sys s)

/-! ## Handlers -/

/-- What the handler of a box leaves behind when it returns into the thunk. -/
structure Effect where
  /-- Frame of the supervisor call. -/
  svcSp : Word
  /-- Memory. -/
  mem : Memory
  /-- Indices of the boxes. -/
  index : Word → BoxIndex
  /-- The reentrancy pointer of the C library. -/
  newlibImpurePtr : Word

/-- Run a handler. The variables of the monitor do not change. -/
def Effect.apply (e : Effect) (s : State) : State :=
  {s with
    mem := e.mem
    ctx := {s.ctx with index := e.index, newlibImpurePtr := e.newlibImpurePtr, psp := e.svcSp}}

/-- What a return from the exception enters. -/
structure Call where
  /-- The active box. -/
  box : ℕ
  /-- The first argument. -/
  argument : Word
  /-- The function. -/
  function : Word
  deriving DecidableEq

/-- The frame of the active box is unstacked. -/
def called (s : State) : Call := ⟨s.ctx.activeBox, s.mem s.ctx.psp, s.mem (s.ctx.psp+24)⟩

/-- The chain after its first step: handlers run and return until a step says
that the chain has ended. -/
def chain (sys : Platform) (effect : ℕ → Effect) :
    ℕ → Bool × State → List Call → Option (State × List Call)
  | _, (true, s), calls => some (s, calls)
  | 0, (false, _), _ => none
  | fuel+1, (false, s), calls =>
    let e := effect s.ctx.activeBox
    (boxInitNext sys e.svcSp (e.apply s)).bind fun out =>
      chain sys effect fuel out (calls ++ [called s])

/-! ## Claims -/

/-- The secure boxes that have a configuration. -/
def configured (sys : Platform) (counter : ℕ) : List ℕ :=
  (List.range' (counter+1) (sys.boxCount-(counter+1))).filter fun box => sys.libConfig box ≠ 0

/-- The call of the handler that a box should get. -/
def initCall (sys : Platform) (box : ℕ) : Call := ⟨box, sys.libConfig box, sys.boxInit ||| 1⟩

/-- The initialization is over: box 0 is active with an empty stack of contexts,
the interrupts are unmasked, and any further attempt halts. -/
structure Completed (sys : Platform) (s : State) : Prop where
  /-- Box 0 is active. -/
  activeBox : s.ctx.activeBox = 0
  /-- The stack of contexts is empty. -/
  contextP : s.ctx.contextP = 0
  /-- The initialization has happened. -/
  happened : s.happened = true
  /-- No interrupt is masked. -/
  basepri : s.basepri = 0
  /-- Whatever runs next cannot start it again or continue it. -/
  halts : ∀ e : Effect, boxInitFirst sys e.svcSp (e.apply s) = none ∧
    boxInitNext sys e.svcSp (e.apply s) = none

/-- The chain calls the handler once for each box that has a configuration, in
order, and completes. -/
def Initializes (sys : Platform) (effect : ℕ → Effect) (srcSvcSp : Word) (s : State) : Prop :=
  ∃ out fuel t, boxInitFirst sys srcSvcSp s = some out ∧
    chain sys effect fuel out [] = some (t, (configured sys 0).map (initCall sys)) ∧
    Completed sys t

/-- The boxes have been counted and box 0 has been loaded. -/
structure Booted (sys : Platform) (s : State) : Prop where
  /-- There is at least box 0. -/
  boxCount : 0 < sys.boxCount
  /-- Box 0 is active. -/
  activeBox : s.ctx.activeBox = 0
  /-- The stack of contexts is empty. -/
  contextP : s.ctx.contextP = 0
  /-- No initialization has happened. -/
  happened : s.happened = false
  /-- No box has been initialized. -/
  counter : s.counter = 0

/-- The handler and the configurations are in public flash, and the frames of
the supervisor calls are on the stacks of the boxes. -/
structure WellFormed (sys : Platform) (effect : ℕ → Effect) (srcSvcSp : Word) : Prop where
  /-- There is a handler. -/
  boxInit : sys.boxInit ≠ 0
  /-- It is in public flash. -/
  boxInit_flash : vmpuPublicFlashAddr sys sys.boxInit = true
  /-- So are the configurations. -/
  libConfig_flash : ∀ box, 0 < box → box < sys.boxCount → sys.libConfig box ≠ 0 →
    vmpuPublicFlashAddr sys (sys.libConfig box) = true
  /-- Box 0 can read its frame. -/
  first : frameReadable sys 0 srcSvcSp = true
  /-- Each secure box can read the frame of its thunk. -/
  thunks : ∀ box, 0 < box → box < sys.boxCount →
    frameReadable sys box (effect box).svcSp = true

/-! ## The search for the next box -/

section Search

variable (sys : Platform)

/-- The search stops at the first box that has a configuration, or at the
number of boxes. -/
theorem searchBox_spec (boxes dstId : ℕ) (henough : sys.boxCount ≤ boxes+dstId) :
    (sys.boxCount ≤ searchBox sys boxes dstId ∧
      (List.range' dstId (sys.boxCount-dstId)).filter (fun box => sys.libConfig box ≠ 0) = []) ∨
    (searchBox sys boxes dstId < sys.boxCount ∧ dstId ≤ searchBox sys boxes dstId ∧
      sys.libConfig (searchBox sys boxes dstId) ≠ 0 ∧
      (List.range' dstId (sys.boxCount-dstId)).filter (fun box => sys.libConfig box ≠ 0) =
        searchBox sys boxes dstId :: configured sys (searchBox sys boxes dstId)) := by
  induction boxes generalizing dstId with
  | zero =>
    have hle : sys.boxCount ≤ dstId := by omega
    exact .inl ⟨hle, by simp [Nat.sub_eq_zero_of_le hle]⟩
  | succ boxes ih =>
    by_cases hlt : dstId < sys.boxCount
    · have hrange : List.range' dstId (sys.boxCount-dstId) =
          dstId :: List.range' (dstId+1) (sys.boxCount-(dstId+1)) := by
        rw [show sys.boxCount-dstId = sys.boxCount-(dstId+1)+1 by omega, List.range'_succ]
      by_cases hconfig : sys.libConfig dstId ≠ 0
      · have hfound : searchBox sys (boxes+1) dstId = dstId := by
          rw [searchBox, if_pos hlt, if_pos hconfig]
        rw [hfound, hrange, List.filter_cons_of_pos (by simpa using hconfig)]
        exact .inr ⟨hlt, le_refl _, hconfig, rfl⟩
      · have hskip : searchBox sys (boxes+1) dstId = searchBox sys boxes (dstId+1) := by
          rw [searchBox, if_pos hlt, if_neg hconfig]
        rw [hskip, hrange, List.filter_cons_of_neg (by simpa using hconfig)]
        rcases ih (dstId+1) (by omega) with hnone | ⟨hfound, hle, hrest⟩
        · exact .inl hnone
        · exact .inr ⟨hfound, by omega, hrest⟩
    · have hle : sys.boxCount ≤ dstId := Nat.not_lt.mp hlt
      exact .inl ⟨by simpa [searchBox, hlt] using hle, by simp [Nat.sub_eq_zero_of_le hle]⟩

/-- The next box is the head of the boxes that are left. -/
theorem nextBox_spec (counter : ℕ) :
    (sys.boxCount ≤ nextBox sys counter ∧ configured sys counter = []) ∨
    (nextBox sys counter < sys.boxCount ∧ counter < nextBox sys counter ∧
      sys.libConfig (nextBox sys counter) ≠ 0 ∧
      configured sys counter = nextBox sys counter :: configured sys (nextBox sys counter)) :=
  searchBox_spec sys sys.boxCount (counter+1) (Nat.le_add_right _ _)

end Search

/-! ## One step -/

/-- The next step of the chain is due: the active box is the one that the
counter names, and box 0 is either active or the only source on the stack of
contexts. -/
structure Waiting (sys : Platform) (s : State) : Prop where
  /-- The chain has not ended. -/
  happened : s.happened = false
  /-- The active box is the expected one. -/
  activeBox : s.ctx.activeBox = s.counter
  /-- The active box is a box. -/
  counter_lt : s.counter < sys.boxCount
  /-- The stack of contexts leads back to box 0. -/
  stack : s.counter = 0 ∧ s.ctx.contextP = 0 ∨
    s.counter ≠ 0 ∧ s.ctx.contextP = 1 ∧ (s.ctx.previousStates 0).srcId = 0

/-- Back in box 0, before the chain goes on or ends. -/
structure Home (s : State) : Prop where
  /-- The chain has not ended. -/
  happened : s.happened = false
  /-- Box 0 is active. -/
  activeBox : s.ctx.activeBox = 0
  /-- The stack of contexts is empty. -/
  contextP : s.ctx.contextP = 0

/-- The state after box 0 has been loaded is due for the first step. -/
theorem Booted.waiting {sys : Platform} {s : State} (hboot : Booted sys s) : Waiting sys s where
  happened := hboot.happened
  activeBox := hboot.activeBox.trans hboot.counter.symm
  counter_lt := hboot.counter ▸ hboot.boxCount
  stack := .inl ⟨hboot.counter, hboot.contextP⟩

/-- Masking the interrupts does not matter to the chain. -/
theorem Waiting.boxInitPre {sys : Platform} {s : State} (hwait : Waiting sys s) :
    Waiting sys (boxInitPre sys s) :=
  ⟨hwait.happened, hwait.activeBox, hwait.counter_lt, hwait.stack⟩

/-- Neither does what a handler leaves behind. -/
theorem Waiting.apply {sys : Platform} {s : State} (hwait : Waiting sys s) (e : Effect) :
    Waiting sys (e.apply s) :=
  ⟨hwait.happened, hwait.activeBox, hwait.counter_lt, hwait.stack⟩

/-- A step first goes back to box 0. -/
theorem returnToBox0_home {sys : Platform} {s : State} (hwait : Waiting sys s) (srcSp : Word) :
    ∃ t, returnToBox0 srcSp s = some t ∧ Home t := by
  rcases hwait.stack with ⟨hcounter, hp⟩ | ⟨hcounter, hp, hsrc⟩
  · refine ⟨_, by rw [returnToBox0, if_pos hcounter], ?_⟩
    exact ⟨hwait.happened, hwait.activeBox.trans hcounter, hp⟩
  · let ctx := contextDiscardExcSf s.ctx.activeBox srcSp s.mem s.ctx
    have hctx : ctx.contextP = 1 ∧ ctx.previousStates = s.ctx.previousStates := ⟨hp, rfl⟩
    have hbound : SwitchType.functionGateway.isFunctionBound = true := rfl
    obtain ⟨u, hout, hleft⟩ := @contextSwitchOut_left .functionGateway ctx hbound (by omega)
    refine ⟨{s with ctx := u}, ?_, hwait.happened, ?_, ?_⟩
    · rw [returnToBox0, if_neg hcounter]
      change (contextSwitchOut .functionGateway ctx).map _ = _
      rw [hout]
      rfl
    · rw [hleft.activeBox, hctx.1, hctx.2]
      exact hsrc
    · rw [hleft.contextP, hctx.1]

/-- The frame for a handler holds its configuration and its address. -/
theorem forged_call (srcSp : Word) (dstId : ℕ) (dstFn dstLr xpsr libConfig : Word)
    (mem : Memory) (ctx : Context.State) :
    let forged := contextForgeExcSf srcSp dstId dstFn dstLr xpsr 0 mem ctx
    let stored := Function.update forged.2 forged.1 libConfig
    stored forged.1 = libConfig ∧ stored (forged.1+24) = dstFn ||| 1 := by
  intro forged stored
  have hne : forged.1+24 ≠ forged.1 := by bv_omega
  have hpsr : forged.1+24 ≠ forged.1+28 := by bv_omega
  refine ⟨Function.update_self .., ?_⟩
  calc stored (forged.1+24) = forged.2 (forged.1+24) := Function.update_of_ne hne ..
    _ = dstFn ||| 1 := by
      change Function.update _ (forged.1+28) _ (forged.1+24) = _
      rw [Function.update_of_ne hpsr]
      exact Function.update_self ..

/-- From box 0 a step enters the handler in a box that has a configuration. -/
theorem enterHandler_waiting {sys : Platform} {s : State} {dstId : ℕ} (hhome : Home s)
    (hdst : dstId < sys.boxCount) (hne : dstId ≠ 0)
    (hflash : vmpuPublicFlashAddr sys (sys.libConfig dstId) = true) :
    ∃ t, enterHandler sys dstId s = some (false, t) ∧ Waiting sys t ∧ t.counter = dstId ∧
      called t = initCall sys dstId := by
  let xpsr := s.mem (s.box0Sp+28)
  let forged := contextForgeExcSf s.box0Sp dstId sys.boxInit sys.boxInitThunk xpsr 0 s.mem s.ctx
  have hactive : s.ctx.activeBox < sys.boxCount := by rw [hhome.activeBox]; omega
  have hdepth : s.ctx.contextP < contextMaxDepth := by rw [hhome.contextP]; decide
  have hbound : SwitchType.functionGateway.isFunctionBound = true := rfl
  obtain ⟨u, hin⟩ := @contextSwitchIn_some _ .functionGateway _ s.box0Sp forged.1 _ hbound hactive
    hdst hdepth
  have hu := contextSwitchIn_entered hbound hactive hin
  obtain ⟨hargument, hfunction⟩ := forged_call s.box0Sp dstId sys.boxInit sys.boxInitThunk xpsr
    (sys.libConfig dstId) s.mem s.ctx
  have hpushed : u.previousStates 0 = ⟨0, .functionGateway, s.box0Sp⟩ := by
    have htop := hu.pushed
    rwa [hhome.contextP, hhome.activeBox] at htop
  refine ⟨{s with
    counter := dstId
    ctx := u
    mem := Function.update forged.2 forged.1 (sys.libConfig dstId)}, ?_, ?_, rfl, ?_⟩
  · rw [enterHandler, hflash]
    change (contextSwitchIn sys.boxCount .functionGateway dstId s.box0Sp forged.1 s.ctx).map _ = _
    rw [hin, ← hhome.happened]
    rfl
  · refine ⟨hhome.happened, hu.activeBox, hdst, .inr ⟨hne, ?_, ?_⟩⟩
    · rw [hu.contextP, hhome.contextP]
    · rw [hpushed]
  · simp only [called, initCall, hu.activeBox, hu.psp]
    rw [hargument, hfunction]

/-- The chain has ended the way it should. -/
theorem completed_of_home {sys : Platform} {s : State} (hhome : Home s) :
    Completed sys (boxInitPost {s with happened := true}) where
  activeBox := hhome.activeBox
  contextP := hhome.contextP
  happened := rfl
  basepri := rfl
  halts _ := ⟨rfl, rfl⟩

/-- One step of the chain. It ends the chain when no box is left, and enters the
handler in the next box otherwise. -/
theorem boxInitNext_step {sys : Platform} {effect : ℕ → Effect} {srcSvcSp svcSp : Word} {s : State}
    (hwf : WellFormed sys effect srcSvcSp) (hcount : sys.boxCount ≠ 1) (hwait : Waiting sys s)
    (hframe : frameReadable sys s.ctx.activeBox svcSp = true) :
    (∃ t, boxInitNext sys svcSp s = some (true, t) ∧ configured sys s.counter = [] ∧
      Completed sys t) ∨
    (∃ t, boxInitNext sys svcSp s = some (false, t) ∧ Waiting sys t ∧ 0 < t.counter ∧
      called t = initCall sys t.counter ∧
      configured sys s.counter = t.counter :: configured sys t.counter) := by
  obtain ⟨home, hreturn, hhome⟩ := returnToBox0_home hwait svcSp
  have hnext : boxInitNext sys svcSp s =
      if sys.boxCount ≤ nextBox sys s.counter then
        some (true, boxInitPost {home with happened := true})
      else enterHandler sys (nextBox sys s.counter) home := by
    have hrunning : ¬s.happened = true := by simp [hwait.happened]
    have hflash : ¬vmpuPublicFlashAddr sys sys.boxInit = false := by simp [hwf.boxInit_flash]
    rw [boxInitNext, boxInitContextSwitchNext, if_neg hrunning, if_neg hcount,
      if_neg (not_not.mpr hwait.activeBox), if_neg hwf.boxInit, if_neg hflash]
    simp only [contextValidateExcSf, hframe, if_true, Option.bind_some, hreturn]
  rcases nextBox_spec sys s.counter with ⟨hend, hnil⟩ | ⟨hlt, hafter, hconfig, hcons⟩
  · rw [if_pos hend] at hnext
    exact .inl ⟨_, hnext, hnil, completed_of_home hhome⟩
  · rw [if_neg (Nat.not_le.mpr hlt)] at hnext
    have hpos : 0 < nextBox sys s.counter := Nat.zero_lt_of_lt hafter
    obtain ⟨t, henter, htwait, hcounter, hcalled⟩ := enterHandler_waiting hhome hlt hpos.ne'
      (hwf.libConfig_flash _ hpos hlt hconfig)
    refine .inr ⟨t, hnext.trans henter, htwait, ?_, ?_, ?_⟩
    · rwa [hcounter]
    · rw [hcalled, hcounter]
    · rw [hcons, hcounter]

/-! ## The whole chain -/

/-- The active secure box can read the frame of its thunk. -/
theorem thunk_readable {sys : Platform} {effect : ℕ → Effect} {srcSvcSp : Word} {s : State}
    (hwf : WellFormed sys effect srcSvcSp) (hwait : Waiting sys s) (hpos : 0 < s.counter) :
    frameReadable sys s.ctx.activeBox (effect s.ctx.activeBox).svcSp = true := by
  rw [hwait.activeBox]
  exact hwf.thunks _ hpos hwait.counter_lt

/-- From a running handler the chain calls it once for each of the boxes that
are left, and completes. -/
theorem chain_completes {sys : Platform} {effect : ℕ → Effect} {srcSvcSp : Word}
    (hwf : WellFormed sys effect srcSvcSp) (hcount : sys.boxCount ≠ 1) (left : List ℕ) (s : State)
    (calls : List Call) (hleft : configured sys s.counter = left) (hwait : Waiting sys s)
    (hpos : 0 < s.counter) (hcalled : called s = initCall sys s.counter) :
    ∃ fuel t, chain sys effect fuel (false, s) calls =
      some (t, calls ++ (s.counter :: left).map (initCall sys)) ∧ Completed sys t := by
  induction left generalizing s calls with
  | nil =>
    have hframe := thunk_readable hwf hwait hpos
    rcases boxInitNext_step hwf hcount (hwait.apply (effect s.ctx.activeBox)) hframe with
      ⟨t, hstep, -, hdone⟩ | ⟨t, -, -, -, -, hcons⟩
    · refine ⟨1, t, ?_, hdone⟩
      simp only [chain, hstep, Option.bind_some, hcalled, List.map_cons, List.map_nil]
    · cases hleft.symm.trans hcons
  | cons box left ih =>
    have hframe := thunk_readable hwf hwait hpos
    rcases boxInitNext_step hwf hcount (hwait.apply (effect s.ctx.activeBox)) hframe with
      ⟨t, -, hnil, -⟩ | ⟨t, hstep, htwait, htpos, htcalled, hcons⟩
    · cases hleft.symm.trans hnil
    · obtain ⟨hbox, hrest⟩ := List.cons.inj (hleft.symm.trans hcons)
      obtain ⟨fuel, u, hchain, hdone⟩ :=
        ih t (calls ++ [called s]) hrest.symm htwait htpos htcalled
      refine ⟨fuel+1, u, ?_, hdone⟩
      rw [chain]
      simp only [hstep, Option.bind_some]
      rw [hchain, hcalled, hbox]
      simp

/-- On a device with more than box 0 the chain runs and completes. -/
theorem initializes_of_boxes {sys : Platform} {effect : ℕ → Effect} {srcSvcSp : Word} {s : State}
    (hboot : Booted sys s) (hwf : WellFormed sys effect srcSvcSp) (hcount : sys.boxCount ≠ 1) :
    Initializes sys effect srcSvcSp s := by
  have hframe : frameReadable sys (boxInitPre sys s).ctx.activeBox srcSvcSp = true := by
    change frameReadable sys s.ctx.activeBox srcSvcSp = true
    rw [hboot.activeBox]
    exact hwf.first
  have hcounter : (boxInitPre sys s).counter = 0 := hboot.counter
  rcases boxInitNext_step hwf hcount hboot.waiting.boxInitPre hframe with
    ⟨t, hstep, hnil, hdone⟩ | ⟨t, hstep, hwait, hpos, hcalled, hcons⟩
  · refine ⟨(true, t), 0, t, hstep, ?_, hdone⟩
    rw [hcounter] at hnil
    rw [hnil]
    rfl
  · obtain ⟨fuel, u, hchain, hdone⟩ := chain_completes hwf hcount _ t [] rfl hwait hpos hcalled
    refine ⟨(false, t), fuel, u, hstep, ?_, hdone⟩
    rw [hcounter] at hcons
    rw [hchain, hcons, List.nil_append]

/-- The priority that masks the interrupts is not zero. -/
theorem mask_ne_zero (sys : Platform) : nvicMinPriority <<< (8-sys.prioBits) ≠ 0 := by
  have hbits : ∀ n : ℕ, n ≤ 5 → nvicMinPriority <<< n ≠ 0 := by decide
  exact hbits _ (by have := sys.prioBits_ge; omega)

/-- On a device with box 0 only the first step ends the chain with the
interrupts masked. -/
theorem boxInitFirst_single {sys : Platform} {s : State} (srcSvcSp : Word)
    (hhappened : s.happened = false) (hcount : sys.boxCount = 1) :
    boxInitFirst sys srcSvcSp s = some (true, {boxInitPre sys s with happened := true}) := by
  have hpre : (boxInitPre sys s).happened = false := hhappened
  simp [boxInitFirst, boxInitNext, boxInitContextSwitchNext, hpre, hcount]

/-- The interrupts then stay masked. -/
theorem not_initializes_single {sys : Platform} {effect : ℕ → Effect} {srcSvcSp : Word} {s : State}
    (hhappened : s.happened = false) (hcount : sys.boxCount = 1) :
    ¬Initializes sys effect srcSvcSp s := by
  rintro ⟨out, fuel, t, hfirst, hchain, hdone⟩
  rw [boxInitFirst_single srcSvcSp hhappened hcount] at hfirst
  cases hfirst
  have ht : {boxInitPre sys s with happened := true} = t := by
    rw [chain] at hchain
    exact congrArg Prod.fst (Option.some.inj hchain)
  exact mask_ne_zero sys (by simpa [← ht, boxInitPre] using hdone.basepri)

/-- The boxes are initialized as they should be if and only if box 0 is not
alone. -/
theorem initializes_iff {sys : Platform} {effect : ℕ → Effect} {srcSvcSp : Word} {s : State}
    (hboot : Booted sys s) (hwf : WellFormed sys effect srcSvcSp) :
    Initializes sys effect srcSvcSp s ↔ sys.boxCount ≠ 1 := by
  refine ⟨?_, initializes_of_boxes hboot hwf⟩
  intro hinit hcount
  exact not_initializes_single hboot.happened hcount hinit

/-- A device with some boxes. Every second one has a configuration. -/
def sampleDevice (boxCount : ℕ) (hcount : boxCount < 256) : Platform where
  boxCount := boxCount
  boxCount_lt := hcount
  prioBits := 5
  prioBits_ge := by decide
  prioBits_le := by decide
  flashStart := 0
  secureStart := 0x1000
  boxInit := 0x101
  boxInitThunk := 0x201
  libConfig box := if box % 2 = 1 then 0x300 else 0
  canRead _ _ := true

/-- The state before the first supervisor call. -/
def sampleStart : State where
  ctx := {
    activeBox := 0
    contextP := 0
    previousStates := fun _ => ⟨0, .functionGateway, 0⟩
    currentStates := fun box => ⟨0x20001000+0x1000*BitVec.ofNat 32 box, 0⟩
    index := fun _ => ⟨0, 0, 0, 0⟩
    uvisorBoxContext := 0
    newlibImpurePtr := 0
    psp := 0x20000F00}
  mem _ := 0
  basepri := 0
  happened := false
  counter := 0
  box0Sp := 0

/-- Handlers that do nothing. -/
def idleHandler (box : ℕ) : Effect := ⟨0x20000F00+0x1000*BitVec.ofNat 32 box, fun _ => 0,
  fun _ => ⟨0, 0, 0, 0⟩, 0⟩

/-- The sample devices meet what the chain relies on. -/
theorem sampleDevice_wellFormed (boxCount : ℕ) (hcount : boxCount < 256) :
    WellFormed (sampleDevice boxCount hcount) idleHandler 0x20000F00 where
  boxInit := by simp [sampleDevice]
  boxInit_flash := by simp [vmpuPublicFlashAddr, sampleDevice]
  libConfig_flash box _ _ hconfig := by
    have hodd : box % 2 = 1 := by
      by_contra heven
      exact hconfig (if_neg heven)
    have hvalue : (sampleDevice boxCount hcount).libConfig box = 0x300 := if_pos hodd
    rw [hvalue]
    simp [vmpuPublicFlashAddr, sampleDevice]
  first := by simp [frameReadable, sampleDevice]
  thunks _ _ _ := by simp [frameReadable, sampleDevice]

/-- Box 2 of four has no configuration and is skipped. -/
theorem initializes_fourBoxes : configured (sampleDevice 4 (by decide)) 0 = [1, 3] ∧
    Initializes (sampleDevice 4 (by decide)) idleHandler 0x20000F00 sampleStart := by
  have hboot : Booted (sampleDevice 4 (by decide)) sampleStart := ⟨by decide, rfl, rfl, rfl, rfl⟩
  refine ⟨by decide, ?_⟩
  exact (initializes_iff hboot (sampleDevice_wellFormed 4 (by decide))).mpr (by decide)

/-- Box 0 alone is left with its interrupts masked. -/
theorem single_box_masked : Booted (sampleDevice 1 (by decide)) sampleStart ∧
    WellFormed (sampleDevice 1 (by decide)) idleHandler 0x20000F00 ∧
    ¬Initializes (sampleDevice 1 (by decide)) idleHandler 0x20000F00 sampleStart := by
  refine ⟨⟨by decide, rfl, rfl, rfl, rfl⟩, sampleDevice_wellFormed 1 (by decide), ?_⟩
  exact not_initializes_single rfl rfl

end Uvisor.BoxInit
