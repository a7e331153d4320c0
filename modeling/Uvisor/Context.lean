import Mathlib.Data.Nat.Notation
import Mathlib.Logic.Function.Basic
import Uvisor.Execution

/-!
# Context switches between boxes

One stack of previous states serves all context switches that are bound to a
function. A switch-in to another box saves the C library's reentrancy pointer
in the index of the box that is left and loads the one of the box that is
entered; the switch-out undoes this. Addresses and stack pointers are 32-bit
words. A missing result means that the system halts. The memory protection
unit is reprogrammed on the way and has a model of its own.
-/

namespace Uvisor.Context

/-- A register or a word in memory. -/
abbrev Word := BitVec 32

/-- UVISOR_CONTEXT_MAX_DEPTH. -/
def contextMaxDepth : ℕ := 16

/-- Types of context switches. -/
inductive SwitchType where
  | functionGateway
  | functionIsr
  | functionDebug
  | unboundThread
  | unboundFirst
  deriving DecidableEq

/-- The switch runs a function in the box that is entered. -/
def SwitchType.isFunctionBound (contextType : SwitchType) : Bool :=
  contextType = .functionGateway || contextType = .functionIsr || contextType = .functionDebug

/-- Snapshot of a previous context. -/
structure PreviousState where
  /-- Box the context belongs to. -/
  srcId : ℕ
  /-- Context switch type. -/
  contextType : SwitchType
  /-- Stack pointer to restore for the context. -/
  srcSp : Word

/-- Current state of a box. -/
structure CurrentState where
  /-- Stack pointer, updated at context switches only. -/
  sp : Word
  /-- Start of the box's memory, where its index lies. -/
  bss : Word

/-- Index of a box, in the memory of the box. -/
structure BoxIndex where
  /-- Saved reentrancy pointer of the C library. -/
  newlibReent : Word
  /-- Heap of the box. -/
  heap : Word
  /-- Allocator in use, null before the heap has been initialized. -/
  activeHeap : Word
  /-- Number of the box. -/
  boxIdSelf : ℕ

/-- Variables and memory that context switches read and write. -/
structure State where
  /-- g_active_box. -/
  activeBox : ℕ
  /-- g_context_p. -/
  contextP : ℕ
  /-- g_context_previous_states. -/
  previousStates : ℕ → PreviousState
  /-- g_context_current_states. -/
  currentStates : ℕ → CurrentState
  /-- Box indices by address. -/
  index : Word → BoxIndex
  /-- The pointer to the index of the active box that all boxes can read. -/
  uvisorBoxContext : Word
  /-- The reentrancy pointer of the C library. -/
  newlibImpurePtr : Word
  /-- Process stack pointer. -/
  psp : Word

/-- vmpu_is_box_id_valid after the boxes have been counted. -/
def vmpuIsBoxIdValid (boxCount boxId : ℕ) : Bool := boxId < boxCount

/-- Saved stack pointer of a box. -/
def State.sp (s : State) (box : ℕ) : Word := (s.currentStates box).sp

/-- Start of the memory of a box. -/
def State.bss (s : State) (box : ℕ) : Word := (s.currentStates box).bss

/-- Write the saved stack pointer of a box. -/
def State.setSp (s : State) (box : ℕ) (sp : Word) : State :=
  {s with currentStates := Function.update s.currentStates box {s.currentStates box with sp := sp}}

/-- Store the outgoing reentrancy pointer in the index of a box. -/
def State.storeReent (s : State) (box : ℕ) : State :=
  let stored := {s.index (s.bss box) with newlibReent := s.newlibImpurePtr}
  {s with index := Function.update s.index (s.bss box) stored}

/-- Make a box the active one and point to its index. -/
def State.activate (s : State) (box : ℕ) : State :=
  {s with activeBox := box, uvisorBoxContext := s.bss box}

/-- Restore the incoming reentrancy pointer from the index of a box. -/
def State.loadReent (s : State) (box : ℕ) : State :=
  {s with newlibImpurePtr := (s.index (s.bss box)).newlibReent}

/-- Write the number of a box to its index. -/
def State.storeBoxId (s : State) (box : ℕ) : State :=
  let stored := {s.index (s.bss box) with boxIdSelf := box}
  {s with index := Function.update s.index (s.bss box) stored}

/-- Push the source's state and update its saved stack pointer. -/
def contextStatePush (contextType : SwitchType) (srcId : ℕ) (srcSp : Word) (s : State) :
    Option State :=
  if contextMaxDepth ≤ s.contextP then none
  else
    let pushed := {s with
      previousStates := Function.update s.previousStates s.contextP ⟨srcId, contextType, srcSp⟩
      contextP := s.contextP+1}
    some (pushed.setSp srcId srcSp)

/-- Pop the previous state. -/
def contextStatePop (s : State) : Option (PreviousState × State) :=
  if s.contextP = 0 then none
  else some (s.previousStates (s.contextP-1), {s with contextP := s.contextP-1})

/-- Source of a switch-in. The very first switch has none and takes the
destination for it. -/
def sourceBox (boxCount : ℕ) (contextType : SwitchType) (dstId : ℕ) (s : State) : Option ℕ :=
  if vmpuIsBoxIdValid boxCount s.activeBox then some s.activeBox
  else if contextType = .unboundFirst then some dstId
  else none

/-- The part of a switch-in that enters another box. -/
def enterBox (srcId dstId : ℕ) (s : State) : State :=
  ((((s.storeReent srcId).activate dstId).storeBoxId dstId).loadReent dstId)

/-- Switch from the active box to the destination. -/
def contextSwitchIn (boxCount : ℕ) (contextType : SwitchType) (dstId : ℕ) (srcSp dstSp : Word)
    (s : State) : Option State :=
  match sourceBox boxCount contextType dstId s with
  | none => none
  | some srcId =>
    if vmpuIsBoxIdValid boxCount dstId = false then none
    else
      let s := if srcId ≠ dstId ∨ contextType = .unboundFirst then enterBox srcId dstId s else s
      if contextType.isFunctionBound then
        (contextStatePush contextType srcId srcSp s).map fun s => {s with psp := dstSp}
      else some s

/-- The part of a switch-out that goes back to another box. -/
def leaveBox (srcId dstId : ℕ) (s : State) : State :=
  (((s.storeReent dstId).activate srcId).loadReent srcId)

/-- Switch back from the active box to the source of the last switch-in. -/
def contextSwitchOut (contextType : SwitchType) (s : State) : Option (PreviousState × State) :=
  if contextType = .unboundThread then none
  else
    let dstId := s.activeBox
    (contextStatePop s).map fun (previous, s) =>
      let s := if previous.srcId ≠ dstId then leaveBox previous.srcId dstId s else s
      (previous, if contextType.isFunctionBound then {s with psp := previous.srcSp} else s)

/-! ## What a switch leaves alone -/

section Fields

variable (s : State) (box srcId dstId : ℕ)

@[simp] theorem enterBox_activeBox : (enterBox srcId dstId s).activeBox = dstId := rfl
@[simp] theorem enterBox_contextP : (enterBox srcId dstId s).contextP = s.contextP := rfl
@[simp] theorem enterBox_previousStates :
    (enterBox srcId dstId s).previousStates = s.previousStates := rfl
@[simp] theorem enterBox_currentStates :
    (enterBox srcId dstId s).currentStates = s.currentStates := rfl
@[simp] theorem enterBox_uvisorBoxContext :
    (enterBox srcId dstId s).uvisorBoxContext = s.bss dstId := rfl
@[simp] theorem leaveBox_activeBox : (leaveBox srcId dstId s).activeBox = srcId := rfl
@[simp] theorem leaveBox_contextP : (leaveBox srcId dstId s).contextP = s.contextP := rfl
@[simp] theorem leaveBox_previousStates :
    (leaveBox srcId dstId s).previousStates = s.previousStates := rfl
@[simp] theorem leaveBox_currentStates :
    (leaveBox srcId dstId s).currentStates = s.currentStates := rfl
@[simp] theorem leaveBox_uvisorBoxContext :
    (leaveBox srcId dstId s).uvisorBoxContext = s.bss srcId := rfl

@[simp] theorem setSp_activeBox (sp : Word) : (s.setSp box sp).activeBox = s.activeBox := rfl
@[simp] theorem setSp_contextP (sp : Word) : (s.setSp box sp).contextP = s.contextP := rfl
@[simp] theorem setSp_previousStates (sp : Word) :
    (s.setSp box sp).previousStates = s.previousStates := rfl
@[simp] theorem setSp_index (sp : Word) : (s.setSp box sp).index = s.index := rfl
@[simp] theorem setSp_uvisorBoxContext (sp : Word) :
    (s.setSp box sp).uvisorBoxContext = s.uvisorBoxContext := rfl
@[simp] theorem setSp_newlibImpurePtr (sp : Word) :
    (s.setSp box sp).newlibImpurePtr = s.newlibImpurePtr := rfl

/-- The saved stack pointer of one box is written. -/
theorem setSp_sp (sp : Word) (b : ℕ) :
    (s.setSp box sp).sp b = if b = box then sp else s.sp b := by
  by_cases hb : b = box
  · subst hb
    simp [State.setSp, State.sp]
  · simp [State.setSp, State.sp, hb]

/-- Memory does not move. -/
@[simp] theorem setSp_bss (sp : Word) : (s.setSp box sp).bss = s.bss := by
  funext b
  by_cases hb : b = box
  · subst hb
    simp [State.setSp, State.bss]
  · simp [State.setSp, State.bss, hb]

end Fields

/-- The reentrancy pointer that belongs to a box: that of the active box is
loaded, those of the others are in their indices. -/
def State.reent (s : State) (box : ℕ) : Word :=
  if s.bss box = s.bss s.activeBox then s.newlibImpurePtr
  else (s.index (s.bss box)).newlibReent

/-- The pointer of the active box is the loaded one. -/
theorem State.reent_active (s : State) : s.reent s.activeBox = s.newlibImpurePtr := by
  simp [State.reent]

/-- Going over to another box keeps every box's pointer. -/
theorem reent_enterBox (s : State) (dstId b : ℕ) :
    (enterBox s.activeBox dstId s).reent b = s.reent b := by
  by_cases hb : s.bss b = s.bss dstId <;> by_cases ha : s.bss b = s.bss s.activeBox <;>
    by_cases hd : s.bss dstId = s.bss s.activeBox <;>
    simp_all [State.reent, enterBox, State.storeReent, State.activate, State.storeBoxId,
      State.loadReent, State.bss]

/-- Going back to another box keeps every box's pointer. -/
theorem reent_leaveBox (s : State) (srcId b : ℕ) :
    (leaveBox srcId s.activeBox s).reent b = s.reent b := by
  by_cases hb : s.bss b = s.bss srcId <;> by_cases ha : s.bss b = s.bss s.activeBox <;>
    by_cases hd : s.bss srcId = s.bss s.activeBox <;>
    simp_all [State.reent, leaveBox, State.storeReent, State.activate, State.loadReent,
      State.bss]

/-! ## Function-bound switches -/

/-- What a switch-in that is bound to a function does. -/
structure Entered (boxCount : ℕ) (contextType : SwitchType) (dstId : ℕ) (srcSp dstSp : Word)
    (s t : State) : Prop where
  /-- The destination is a box. -/
  dst_lt : dstId < boxCount
  /-- There was room on the stack of previous states. -/
  depth_lt : s.contextP < contextMaxDepth
  /-- The destination is active. -/
  activeBox : t.activeBox = dstId
  /-- One more state is on the stack. -/
  contextP : t.contextP = s.contextP+1
  /-- It is that of the source. -/
  pushed : t.previousStates s.contextP = ⟨s.activeBox, contextType, srcSp⟩
  /-- The others have not changed. -/
  previousStates : ∀ i, i ≠ s.contextP → t.previousStates i = s.previousStates i
  /-- The source's stack pointer has been saved. -/
  sp : ∀ b, t.sp b = if b = s.activeBox then srcSp else s.sp b
  /-- Memory does not move. -/
  bss : t.bss = s.bss
  /-- The context pointer follows the active box. -/
  uvisorBoxContext : s.uvisorBoxContext = s.bss s.activeBox → t.uvisorBoxContext = t.bss dstId
  /-- Every box keeps its reentrancy pointer. -/
  reent : ∀ b, t.reent b = s.reent b
  /-- The destination's stack is used. -/
  psp : t.psp = dstSp

/-- The state before the push of a switch-in. -/
def switched (dstId : ℕ) (s : State) : State :=
  if s.activeBox ≠ dstId then enterBox s.activeBox dstId s else s

theorem contextSwitchIn_bound {boxCount : ℕ} {contextType : SwitchType} {dstId : ℕ}
    {srcSp dstSp : Word} {s : State} (hbound : contextType.isFunctionBound = true)
    (hactive : s.activeBox < boxCount) :
    contextSwitchIn boxCount contextType dstId srcSp dstSp s =
      if boxCount ≤ dstId then none
      else (contextStatePush contextType s.activeBox srcSp (switched dstId s)).map fun s =>
        {s with psp := dstSp} := by
  have hfirst : contextType ≠ .unboundFirst := by
    intro he
    subst he
    simp [SwitchType.isFunctionBound] at hbound
  by_cases hdst : boxCount ≤ dstId
  · simp [contextSwitchIn, sourceBox, vmpuIsBoxIdValid, hactive, hdst]
  · simp [contextSwitchIn, sourceBox, vmpuIsBoxIdValid, hactive, Nat.not_le.mp hdst, hdst, hfirst,
      hbound, switched]

/-- The destination of a switch is active after it. -/
@[simp] theorem switched_activeBox (dstId : ℕ) (s : State) :
    (switched dstId s).activeBox = dstId := by
  unfold switched
  split
  · rfl
  · rename_i hsame
    exact not_not.mp hsame

/-- A switch to a thread of another box pushes nothing. -/
theorem contextSwitchIn_unboundThread {boxCount dstId : ℕ} {srcSp dstSp : Word} {s : State}
    (hactive : s.activeBox < boxCount) (hdst : dstId < boxCount) :
    contextSwitchIn boxCount .unboundThread dstId srcSp dstSp s = some (switched dstId s) := by
  simp [contextSwitchIn, sourceBox, vmpuIsBoxIdValid, hactive, hdst, switched,
    SwitchType.isFunctionBound]

/-- The reentrancy pointers do not depend on the stack of previous states, the
saved stack pointers and the stack in use. -/
theorem reent_congr {s t : State} (hactive : t.activeBox = s.activeBox) (hbss : t.bss = s.bss)
    (hindex : t.index = s.index) (hptr : t.newlibImpurePtr = s.newlibImpurePtr) (b : ℕ) :
    t.reent b = s.reent b := by
  simp only [State.reent, hactive, hbss, hindex, hptr]

theorem contextSwitchIn_entered {boxCount : ℕ} {contextType : SwitchType} {dstId : ℕ}
    {srcSp dstSp : Word} {s t : State} (hbound : contextType.isFunctionBound = true)
    (hactive : s.activeBox < boxCount)
    (h : contextSwitchIn boxCount contextType dstId srcSp dstSp s = some t) :
    Entered boxCount contextType dstId srcSp dstSp s t := by
  rw [contextSwitchIn_bound hbound hactive] at h
  split at h
  · cases h
  rename_i hdst
  obtain ⟨pushed, hpush, rfl⟩ := Option.map_eq_some_iff.mp h
  have hsame : (switched dstId s).activeBox = dstId ∧ (switched dstId s).contextP = s.contextP ∧
      (switched dstId s).previousStates = s.previousStates ∧
      (switched dstId s).currentStates = s.currentStates ∧
      (∀ b, (switched dstId s).reent b = s.reent b) ∧
      (s.uvisorBoxContext = s.bss s.activeBox →
        (switched dstId s).uvisorBoxContext = s.bss dstId) := by
    unfold switched
    split
    · exact ⟨rfl, rfl, rfl, rfl, fun b => reent_enterBox s dstId b, fun _ => rfl⟩
    · rename_i hd
      have hd : s.activeBox = dstId := not_not.mp hd
      exact ⟨hd, rfl, rfl, rfl, fun _ => rfl, fun hp => hd ▸ hp⟩
  obtain ⟨hbox, hp, hprev, hcur, hreent, hptr⟩ := hsame
  unfold contextStatePush at hpush
  split at hpush
  · cases hpush
  rename_i hdepth
  simp only [Option.some.injEq] at hpush
  subst hpush
  have hbss : (switched dstId s).bss = s.bss := by
    funext b
    simp only [State.bss, hcur]
  refine ⟨Nat.not_le.mp hdst, hp ▸ Nat.not_le.mp hdepth, hbox, congrArg (·+1) hp, ?_, ?_, ?_, ?_,
    ?_, ?_, rfl⟩
  · simp [hp]
  · intro i hi
    simp [hp, hi, hprev]
  · intro b
    change (State.setSp _ s.activeBox srcSp).sp b = _
    rw [setSp_sp]
    split
    · rfl
    · change ((switched dstId s).currentStates b).sp = s.sp b
      rw [hcur]
      rfl
  · change (State.setSp _ s.activeBox srcSp).bss = _
    rw [setSp_bss]
    exact hbss
  · intro hpointer
    change (switched dstId s).uvisorBoxContext = (State.setSp _ s.activeBox srcSp).bss dstId
    rw [setSp_bss, hptr hpointer]
    exact (congrFun hbss dstId).symm
  · intro b
    rw [← hreent b]
    apply reent_congr
    · rfl
    · change (State.setSp _ s.activeBox srcSp).bss = _
      rw [setSp_bss]
      rfl
    · rfl
    · rfl

/-- A switch-in to a box halts only when the stack of previous states is full. -/
theorem contextSwitchIn_some {boxCount : ℕ} {contextType : SwitchType} {dstId : ℕ}
    {srcSp dstSp : Word} {s : State} (hbound : contextType.isFunctionBound = true)
    (hactive : s.activeBox < boxCount) (hdst : dstId < boxCount)
    (hdepth : s.contextP < contextMaxDepth) :
    ∃ t, contextSwitchIn boxCount contextType dstId srcSp dstSp s = some t := by
  have hp : (switched dstId s).contextP = s.contextP := by
    unfold switched
    split <;> rfl
  rw [contextSwitchIn_bound hbound hactive, if_neg (Nat.not_le.mpr hdst), contextStatePush, hp,
    if_neg (Nat.not_le.mpr hdepth)]
  exact ⟨_, rfl⟩

/-- What a switch-out that is bound to a function does. -/
structure Left (previous : PreviousState) (s t : State) : Prop where
  /-- The source is active again. -/
  activeBox : t.activeBox = previous.srcId
  /-- One state less is on the stack. -/
  contextP : t.contextP = s.contextP-1
  /-- The stack itself is not written. -/
  previousStates : t.previousStates = s.previousStates
  /-- Neither are the saved stack pointers. -/
  currentStates : t.currentStates = s.currentStates
  /-- The context pointer follows the active box. -/
  uvisorBoxContext : s.uvisorBoxContext = s.bss s.activeBox →
    t.uvisorBoxContext = s.bss previous.srcId
  /-- Every box keeps its reentrancy pointer. -/
  reent : ∀ b, t.reent b = s.reent b
  /-- The source's stack is used. -/
  psp : t.psp = previous.srcSp

/-- A switch-out with something on the stack goes back to the top of it. -/
theorem contextSwitchOut_left {contextType : SwitchType} {s : State}
    (hbound : contextType.isFunctionBound = true) (hp : s.contextP ≠ 0) :
    ∃ t, contextSwitchOut contextType s = some (s.previousStates (s.contextP-1), t) ∧
      Left (s.previousStates (s.contextP-1)) s t := by
  have hthread : contextType ≠ .unboundThread := by
    intro he
    subst he
    simp [SwitchType.isFunctionBound] at hbound
  simp only [contextSwitchOut, if_neg hthread, contextStatePop, if_neg hp, Option.map_some, hbound,
    if_true]
  refine ⟨_, rfl, ?_⟩
  split
  · exact ⟨rfl, rfl, rfl, rfl, fun _ => rfl,
      fun b => reent_leaveBox {s with contextP := s.contextP-1} _ b, rfl⟩
  · rename_i hsame
    have hsame : (s.previousStates (s.contextP-1)).srcId = s.activeBox := not_not.mp hsame
    exact ⟨hsame.symm, rfl, rfl, rfl, fun h => hsame ▸ h, fun _ => rfl, rfl⟩

end Uvisor.Context
