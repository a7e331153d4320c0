import Uvisor.ByteMemory
import Uvisor.Execution
import Uvisor.KinetisMpu
import Uvisor.RegionSizes

/-!
# Boxes without uVisor

When uVisor is disabled the library keeps the call stack of the boxes and the
pointer to the context of the running one by itself. Interrupts are not masked
while it does so. The pointer is set before the box is pushed, and a handler
that returns between the two sets it back to the box that is on top of the call
stack: the box then runs with the context of its caller.
-/

namespace Uvisor.Disabled

open Execution
open ArmMpu (Word)
open PageAllocator (Port maxBoxes)
open ByteMemory (Memory)

/-! ## Globals -/

/-- UVISOR_CONTEXT_MAX_DEPTH. -/
def contextMaxDepth : ℕ := 16

/-- Entry of the table of vectors. -/
structure UserIrq where
  /-- Owner of the interrupt. -/
  boxId : ℕ
  /-- Handler, or zero. -/
  vector : Word
  deriving DecidableEq

/-- What the image and the device fix. -/
structure Platform where
  /-- Memory protection that the library has been built for. -/
  port : Port
  /-- Number of configuration tables. -/
  boxCount : ℕ
  /-- There is a public box. -/
  boxCount_pos : 0 < boxCount
  /-- There is a place for every box. -/
  boxCount_le : boxCount ≤ maxBoxes
  /-- bss.size_of.context of a configuration table. -/
  contextSize : ℕ → Word
  /-- __uvisor_bss_boxes_start. -/
  bssBoxesStart : Word
  /-- NVIC_VECTORS. -/
  nvicVectors : ℕ
  /-- The implemented bits of a priority. -/
  prioMask : BitVec 8

/-- Variables of the library. -/
structure Globals where
  /-- __uvisor_ps. -/
  ps : Word
  /-- g_initialized. -/
  initialized : Bool
  /-- g_uvisor_ps_array. -/
  psArray : ℕ → Word
  /-- g_call_stack. -/
  callStack : ℕ → ℕ
  /-- g_call_sp, which is never negative. -/
  callSp : ℕ
  /-- g_memory_position. -/
  memoryPosition : Word
  /-- g_uvisor_disabled_vectors. -/
  vectors : ℕ → UserIrq
  /-- SCB->VTOR is the local vector table. -/
  relocated : Bool
  /-- g_virq_prio_bits. -/
  virqPrioBits : ℕ
  /-- Memory of the contexts. -/
  memory : Memory 32

/-- UVISOR_REGION_ROUND_UP. -/
def regionRoundUp : Port → Word → Word
  | .armv7m, size => 1 <<< RegionSizes.uvisorRegionBits size
  | .kinetis, size | .armv8m, size => KinetisMpu.regionRoundUp size

/-! ## Functions -/

section Functions

variable (sys : Platform)

/-- One pass of the loop over the configuration tables. -/
def initBox (s : Globals) (boxId : ℕ) : Option Globals :=
  let contextSize := sys.contextSize boxId
  if contextSize = 0 then some {s with psArray := Function.update s.psArray boxId 0}
  else if boxId = 0 then none
  else
    let size := regionRoundUp sys.port contextSize
    some { s with
      psArray := Function.update s.psArray boxId s.memoryPosition
      memory := ByteMemory.write s.memory s.memoryPosition size.toNat (0 : BitVec 8)
      memoryPosition := s.memoryPosition+size }

/-- uvisor_disabled_init_context. -/
def uvisorDisabledInitContext (s : Globals) : Option Globals :=
  if s.initialized then some s
  else
    ((List.range sys.boxCount).foldlM (initBox sys)
      {s with memoryPosition := sys.bssBoxesStart}).map fun s => {s with initialized := true}

/-- The pointer is set to the context of the destination. -/
def setPointer (dstBoxId : ℕ) (s : Globals) : Option Globals :=
  (uvisorDisabledInitContext sys s).map fun s => {s with ps := s.psArray dstBoxId}

/-- The call stack has room. -/
def hasRoom (s : Globals) : Bool := !decide (contextMaxDepth-1 ≤ s.callSp)

/-- The destination is pushed. -/
def pushBox (dstBoxId : ℕ) (s : Globals) : Globals :=
  { s with
    callSp := s.callSp+1
    callStack := Function.update s.callStack (s.callSp+1) dstBoxId }

/-- The destination is popped, and the source is read. -/
def popBox (s : Globals) : Option (ℕ × Globals) :=
  if s.callSp = 0 then none
  else some (s.callStack (s.callSp-1), {s with callSp := s.callSp-1})

/-- The pointer is set to the context of the source. -/
def restorePointer (srcBoxId : ℕ) (s : Globals) : Globals := {s with ps := s.psArray srcBoxId}

/-- uvisor_disabled_switch_in. -/
def uvisorDisabledSwitchIn (dstBoxId : ℕ) (s : Globals) : Option Globals :=
  (setPointer sys dstBoxId s).bind fun s => if hasRoom s then some (pushBox dstBoxId s) else none

/-- uvisor_disabled_switch_out. -/
def uvisorDisabledSwitchOut (s : Globals) : Option Globals :=
  (popBox s).map fun (srcBoxId, s) => restorePointer srcBoxId s

/-- The vector table is relocated once. Bits of a priority that are not
implemented read as zero. -/
def relocate (s : Globals) : Globals :=
  if s.relocated then s
  else { s with
    relocated := true
    virqPrioBits := (List.range 8).countP fun i => (0xFF &&& sys.prioMask).getLsbD i }

/-- The current box is read, the vector table is relocated, and the owner is
written. -/
def setOwner (irqn : ℕ) (vector : Word) (s : Globals) : Option (ℕ × Globals) :=
  if sys.nvicVectors ≤ irqn then none
  else
    let boxId := s.callStack s.callSp
    let s := relocate sys s
    let entry := {s.vectors irqn with boxId := if vector ≠ 0 then boxId else 0}
    some (boxId, {s with vectors := Function.update s.vectors irqn entry})

/-- The handler is written. -/
def setHandler (irqn : ℕ) (vector : Word) (s : Globals) : Globals :=
  {s with vectors := Function.update s.vectors irqn {s.vectors irqn with vector}}

/-- uvisor_disabled_set_vector. -/
def uvisorDisabledSetVector (irqn : ℕ) (vector : Word) (s : Globals) : Option Globals :=
  (setOwner sys irqn vector s).map fun (_, s) => setHandler irqn vector s

/-- uvisor_disabled_get_vector. -/
def uvisorDisabledGetVector (irqn : ℕ) (s : Globals) : Option Word :=
  if sys.nvicVectors ≤ irqn then none else some (s.vectors irqn).vector

/-- The checks of uvisor_disabled_default_vector: the entry of the interrupt. -/
def defaultVectorEntry (irqn : ℕ) (s : Globals) : Option UserIrq :=
  if sys.nvicVectors ≤ irqn then none
  else if (s.vectors irqn).vector = 0 then none
  else some (s.vectors irqn)

end Functions

/-! ## Runs -/

/-- Where an activity stands. -/
inductive Pc where
  /-- Code of a box runs. -/
  | body
  /-- It has called uvisor_disabled_switch_in. -/
  | entering (dst : ℕ)
  /-- The pointer has been set. -/
  | entered (dst : ℕ)
  /-- The call stack has been found to have room. -/
  | checked (dst : ℕ)
  /-- It has called uvisor_disabled_switch_out. -/
  | leaving
  /-- The box has been popped. -/
  | left (src : ℕ)
  /-- It has called uvisor_disabled_set_vector, and the owner has been written. -/
  | registering (irqn boxId : ℕ) (vector : Word)
  deriving DecidableEq

/-- The pointer has been set, and the box is not yet on the call stack. -/
def Pc.inWindow : Pc → Bool
  | .entered _ | .checked _ => true
  | _ => false

/-- The entry of an interrupt is half written. -/
def Pc.halfWritten (irqn : ℕ) : Pc → Bool
  | .registering irqn' _ _ => decide (irqn' = irqn)
  | _ => false

/-- The main program, or the service of an interrupt. -/
structure Activity where
  /-- Where it stands. -/
  pc : Pc
  /-- The boxes that it has entered, the last one first. -/
  boxes : List ℕ
  /-- A handler has returned between the last two steps of entering the box. -/
  disturbed : Bool
  /-- The interrupt, with its owner and its handler. -/
  serves : Option (ℕ × ℕ × Word)

/-- The variables and the activities, the last one first. -/
structure State where
  /-- Variables of the library. -/
  globals : Globals
  /-- Activities; each has interrupted the next one. -/
  activities : List Activity
  /-- The vectors that boxes have asked for: interrupt, box, and handler. -/
  requested : List (ℕ × ℕ × Word)

/-- The boxes that have been entered and not been left. -/
def nest (activities : List Activity) : List ℕ := activities.flatMap Activity.boxes

/-- Actions of the activity that runs, and interrupts. -/
inductive Action where
  /-- Call the gateway of another box. -/
  | call (dst : ℕ)
  /-- Return from the box. -/
  | ret
  /-- Register a vector. -/
  | setVector (irqn : ℕ) (vector : Word)
  /-- The next statement of the library. -/
  | advance
  /-- An interrupt arrives. -/
  | interrupt (irqn : ℕ)
  deriving DecidableEq

/-- An activity goes on after an interrupt. -/
def Activity.resumed (a : Activity) : Activity := {a with disturbed := a.pc.inWindow}

/-- The activities after the last one has set the pointer back. -/
def afterLeaving (top : Activity) (rest : List Activity) : List Activity :=
  match top.boxes, rest with
  | [], [] => []
  | [], next :: rest => next.resumed :: rest
  | _ :: _, rest => {top with pc := .body, disturbed := false} :: rest

/-- One step. -/
def step (sys : Platform) (s : State) (a : Action) : Option State :=
  match s.activities with
  | [] => none
  | top :: rest =>
    match a, top.pc with
    | .call dst, .body =>
      if dst < sys.boxCount then some {s with activities := {top with pc := .entering dst} :: rest}
      else none
    | .ret, .body => some {s with activities := {top with pc := .leaving} :: rest}
    | .setVector irqn vector, .body =>
      (setOwner sys irqn vector s.globals).map fun (boxId, globals) =>
        ⟨globals, {top with pc := .registering irqn boxId vector} :: rest,
          (irqn, (nest s.activities).headD 0, vector) :: s.requested⟩
    | .advance, .entering dst =>
      (setPointer sys dst s.globals).map fun globals =>
        {s with globals, activities := {top with pc := .entered dst, disturbed := false} :: rest}
    | .advance, .entered dst =>
      if hasRoom s.globals then some {s with activities := {top with pc := .checked dst} :: rest}
      else none
    | .advance, .checked dst =>
      some { s with
        globals := pushBox dst s.globals
        activities := {top with pc := .body, boxes := dst :: top.boxes} :: rest }
    | .advance, .leaving =>
      (popBox s.globals).map fun (src, globals) =>
        {s with globals, activities := {top with pc := .left src, boxes := top.boxes.tail} :: rest}
    | .advance, .left src =>
      some { s with
        globals := restorePointer src s.globals
        activities := afterLeaving top rest }
    | .advance, .registering irqn _ vector =>
      some { s with
        globals := setHandler irqn vector s.globals
        activities := {top with pc := .body} :: rest }
    | .interrupt irqn, _ =>
      if s.globals.relocated then
        (defaultVectorEntry sys irqn s.globals).map fun entry =>
          {s with activities := ⟨.entering entry.boxId, [], false,
            some (irqn, entry.boxId, entry.vector)⟩ :: top :: rest}
      else none
    | _, _ => none

/-- The variables are zero, and the main program runs in box 0. -/
structure Initial (s : State) : Prop where
  /-- The main program. -/
  activities : s.activities = [⟨.body, [0], false, none⟩]
  /-- The pointer. -/
  ps : s.globals.ps = 0
  /-- There are no contexts. -/
  psArray : ∀ b, s.globals.psArray b = 0
  /-- They have not been allocated. -/
  initialized : s.globals.initialized = false
  /-- The call stack has box 0. -/
  callStack : s.globals.callStack 0 = 0
  /-- Nothing has been pushed. -/
  callSp : s.globals.callSp = 0
  /-- There are no vectors. -/
  vectors : ∀ irqn, s.globals.vectors irqn = ⟨0, 0⟩
  /-- No vector has been asked for. -/
  requested : s.requested = []

/-! ## The call stack -/

/-- The boxes on the call stack, the last one first. -/
def Globals.calls (s : Globals) : List ℕ := ((List.range (s.callSp+1)).map s.callStack).reverse

section Calls

variable {sys : Platform} {s t : Globals} {dst src : ℕ}

/-- A box is pushed on top. -/
theorem calls_pushBox (dst : ℕ) (s : Globals) : (pushBox dst s).calls = dst :: s.calls := by
  have hbelow : (List.range (s.callSp+1)).map (Function.update s.callStack (s.callSp+1) dst) =
      (List.range (s.callSp+1)).map s.callStack :=
    List.map_congr_left fun i hi =>
      Function.update_of_ne (Nat.ne_of_lt (List.mem_range.mp hi)) _ _
  rw [Globals.calls, pushBox, List.range_succ, List.map_append, hbelow, List.reverse_append]
  simp [Globals.calls]

/-- The top is popped, and the box below is the source. -/
theorem popBox_spec (h : popBox s = some (src, t)) :
    ∃ top below, s.calls = top :: src :: below ∧ t.calls = src :: below ∧
      t = {s with callSp := s.callSp-1} := by
  unfold popBox at h
  split_ifs at h with hzero
  obtain ⟨rfl, rfl⟩ := Prod.mk.inj (Option.some.inj h)
  obtain ⟨sp, hsp⟩ := Nat.exists_eq_succ_of_ne_zero hzero
  refine ⟨s.callStack (sp+1), ((List.range sp).map s.callStack).reverse, ?_, ?_, rfl⟩
  · rw [Globals.calls, hsp, List.range_succ, List.range_succ]
    simp
  · rw [Globals.calls]
    simp only [hsp, Nat.succ_sub_one]
    rw [List.range_succ]
    simp

theorem calls_length (s : Globals) : s.calls.length = s.callSp+1 := by
  simp [Globals.calls]

/-- The current box. -/
theorem calls_head (s : Globals) : s.calls.headD 0 = s.callStack s.callSp := by
  rw [Globals.calls, List.range_succ]
  simp

/-- What the allocation of the contexts leaves alone. -/
structure SameCalls (s t : Globals) : Prop where
  /-- The call stack. -/
  calls : t.calls = s.calls
  /-- The vectors. -/
  vectors : t.vectors = s.vectors

theorem initBox_frame {boxId : ℕ} (h : initBox sys s boxId = some t) :
    t.callStack = s.callStack ∧ t.callSp = s.callSp ∧ t.vectors = s.vectors := by
  unfold initBox at h
  dsimp only at h
  split_ifs at h
  · obtain rfl := Option.some.inj h
    exact ⟨rfl, rfl, rfl⟩
  · obtain rfl := Option.some.inj h
    exact ⟨rfl, rfl, rfl⟩

theorem initBoxes_frame {boxes : List ℕ} (h : boxes.foldlM (initBox sys) s = some t) :
    t.callStack = s.callStack ∧ t.callSp = s.callSp ∧ t.vectors = s.vectors := by
  induction boxes generalizing s with
  | nil =>
    obtain rfl := Option.some.inj h
    exact ⟨rfl, rfl, rfl⟩
  | cons boxId boxes ih =>
    rw [List.foldlM_cons] at h
    obtain ⟨u, hu, ht⟩ := Option.bind_eq_some_iff.mp h
    obtain ⟨hstack, hsp, hvectors⟩ := initBox_frame hu
    obtain ⟨hstack', hsp', hvectors'⟩ := ih ht
    exact ⟨hstack'.trans hstack, hsp'.trans hsp, hvectors'.trans hvectors⟩

theorem setPointer_spec (h : setPointer sys dst s = some t) :
    SameCalls s t ∧ t.ps = t.psArray dst := by
  obtain ⟨u, hinit, rfl⟩ := Option.map_eq_some_iff.mp h
  refine ⟨?_, rfl⟩
  unfold uvisorDisabledInitContext at hinit
  split_ifs at hinit
  · obtain rfl := Option.some.inj hinit
    exact ⟨rfl, rfl⟩
  · obtain ⟨v, hboxes, rfl⟩ := Option.map_eq_some_iff.mp hinit
    obtain ⟨hstack, hsp, hvectors⟩ := initBoxes_frame hboxes
    refine ⟨?_, hvectors⟩
    simp only [Globals.calls, hstack, hsp]

end Calls

/-! ## What a step does -/

/-- The effect of a step on a state with a running activity. -/
inductive Effect (sys : Platform) (s : State) (top : Activity) (rest : List Activity) :
    Action → State → Prop where
  /-- A gateway is called. -/
  | call {dst : ℕ} (hpc : top.pc = .body) (hdst : dst < sys.boxCount) :
    Effect sys s top rest (.call dst)
      {s with activities := {top with pc := .entering dst} :: rest}
  /-- The code of a box returns. -/
  | ret (hpc : top.pc = .body) :
    Effect sys s top rest .ret {s with activities := {top with pc := .leaving} :: rest}
  /-- A vector is asked for. -/
  | setVector {irqn boxId : ℕ} {vector : Word} {globals : Globals} (hpc : top.pc = .body)
    (howner : setOwner sys irqn vector s.globals = some (boxId, globals)) :
    Effect sys s top rest (.setVector irqn vector)
      ⟨globals, {top with pc := .registering irqn boxId vector} :: rest,
        (irqn, (nest s.activities).headD 0, vector) :: s.requested⟩
  /-- The pointer is set. -/
  | enter {dst : ℕ} {globals : Globals} (hpc : top.pc = .entering dst)
    (hset : setPointer sys dst s.globals = some globals) :
    Effect sys s top rest .advance
      {s with globals, activities := {top with pc := .entered dst, disturbed := false} :: rest}
  /-- The call stack is checked. -/
  | check {dst : ℕ} (hpc : top.pc = .entered dst) (hroom : hasRoom s.globals = true) :
    Effect sys s top rest .advance
      {s with activities := {top with pc := .checked dst} :: rest}
  /-- The box is pushed. -/
  | push {dst : ℕ} (hpc : top.pc = .checked dst) :
    Effect sys s top rest .advance
      { s with
        globals := pushBox dst s.globals
        activities := {top with pc := .body, boxes := dst :: top.boxes} :: rest }
  /-- The box is popped. -/
  | pop {src : ℕ} {globals : Globals} (hpc : top.pc = .leaving)
    (hpop : popBox s.globals = some (src, globals)) :
    Effect sys s top rest .advance
      {s with globals, activities := {top with pc := .left src, boxes := top.boxes.tail} :: rest}
  /-- The pointer is set back. -/
  | restore {src : ℕ} (hpc : top.pc = .left src) :
    Effect sys s top rest .advance
      { s with
        globals := restorePointer src s.globals
        activities := afterLeaving top rest }
  /-- The handler is written. -/
  | register {irqn boxId : ℕ} {vector : Word} (hpc : top.pc = .registering irqn boxId vector) :
    Effect sys s top rest .advance
      { s with
        globals := setHandler irqn vector s.globals
        activities := {top with pc := .body} :: rest }
  /-- An interrupt is taken. -/
  | interrupt {irqn : ℕ} {entry : UserIrq} (hrelocated : s.globals.relocated = true)
    (hentry : defaultVectorEntry sys irqn s.globals = some entry) :
    Effect sys s top rest (.interrupt irqn)
      {s with activities := ⟨.entering entry.boxId, [], false,
        some (irqn, entry.boxId, entry.vector)⟩ :: top :: rest}

theorem step_effect {sys : Platform} {s t : State} {a : Action} (h : step sys s a = some t) :
    ∃ top rest, s.activities = top :: rest ∧ Effect sys s top rest a t := by
  unfold step at h
  split at h
  · cases h
  rename_i top rest hactivities
  refine ⟨top, rest, hactivities, ?_⟩
  split at h
  · rename_i dst hpc
    split_ifs at h with hdst
    obtain rfl := Option.some.inj h
    exact .call hpc hdst
  · rename_i hpc
    obtain rfl := Option.some.inj h
    exact .ret hpc
  · rename_i irqn vector hpc
    obtain ⟨⟨boxId, globals⟩, howner, rfl⟩ := Option.map_eq_some_iff.mp h
    exact .setVector hpc howner
  · rename_i dst hpc
    obtain ⟨globals, hset, rfl⟩ := Option.map_eq_some_iff.mp h
    exact .enter hpc hset
  · rename_i dst hpc
    split_ifs at h with hroom
    obtain rfl := Option.some.inj h
    exact .check hpc hroom
  · rename_i dst hpc
    obtain rfl := Option.some.inj h
    exact .push hpc
  · rename_i hpc
    obtain ⟨⟨src, globals⟩, hpop, rfl⟩ := Option.map_eq_some_iff.mp h
    exact .pop hpc hpop
  · rename_i src hpc
    obtain rfl := Option.some.inj h
    exact .restore hpc
  · rename_i irqn boxId vector hpc
    obtain rfl := Option.some.inj h
    exact .register hpc
  · rename_i irqn
    split_ifs at h with hrelocated
    obtain ⟨entry, hentry, rfl⟩ := Option.map_eq_some_iff.mp h
    exact .interrupt hrelocated hentry
  · cases h

/-- The relocation leaves everything else alone. -/
theorem relocate_eq (sys : Platform) (s : Globals) :
    ∃ relocated virqPrioBits, relocate sys s = {s with relocated, virqPrioBits} := by
  unfold relocate
  split
  · exact ⟨s.relocated, s.virqPrioBits, rfl⟩
  · exact ⟨_, _, rfl⟩

/-- Registering a vector leaves the pointer and the call stack alone. -/
theorem setOwner_spec {sys : Platform} {s t : Globals} {irqn boxId : ℕ} {vector : Word}
    (h : setOwner sys irqn vector s = some (boxId, t)) :
    boxId = s.callStack s.callSp ∧ ∃ relocated virqPrioBits entry,
      t = {s with relocated, virqPrioBits, vectors := Function.update s.vectors irqn entry} ∧
        entry.boxId = if vector ≠ 0 then boxId else 0 := by
  obtain ⟨relocated, virqPrioBits, hrelocate⟩ := relocate_eq sys s
  unfold setOwner at h
  rw [hrelocate] at h
  split at h
  · cases h
  obtain ⟨rfl, rfl⟩ := Prod.mk.inj (Option.some.inj h)
  exact ⟨rfl, relocated, virqPrioBits, _, rfl, rfl⟩

/-! ## Calls that are not interrupted -/

section Uninterrupted

variable {sys : Platform} {s : State} {top : Activity} {rest : List Activity}

/-- A gateway that is not interrupted is uvisor_disabled_switch_in. -/
theorem exec_switchIn (htop : s.activities = top :: rest) (hpc : top.pc = .body) {dst : ℕ}
    (hdst : dst < sys.boxCount) :
    exec (step sys) [.call dst, .advance, .advance, .advance] s =
      (uvisorDisabledSwitchIn sys dst s.globals).map fun globals =>
        { s with
          globals
          activities := ⟨.body, dst :: top.boxes, false, top.serves⟩ :: rest } := by
  simp only [exec, step, htop, hpc, hdst, if_true, Option.bind_some, uvisorDisabledSwitchIn]
  cases hset : setPointer sys dst s.globals with
  | none => rfl
  | some globals => cases hroom : hasRoom globals <;> simp [hroom]

/-- So is the return from it uvisor_disabled_switch_out. -/
theorem exec_switchOut (htop : s.activities = top :: rest) (hpc : top.pc = .body)
    {box caller : ℕ} {boxes : List ℕ} (hboxes : top.boxes = box :: caller :: boxes) :
    exec (step sys) [.ret, .advance, .advance] s =
      (uvisorDisabledSwitchOut s.globals).map fun globals =>
        { s with
          globals
          activities := ⟨.body, caller :: boxes, false, top.serves⟩ :: rest } := by
  simp only [exec, step, htop, hpc, Option.bind_some, uvisorDisabledSwitchOut]
  cases hpop : popBox s.globals with
  | none => rfl
  | some popped => simp [afterLeaving, hboxes]

/-- A vector that has been registered is read back. -/
theorem getVector_setVector {irqn : ℕ} {vector : Word} {globals globals' : Globals}
    (h : uvisorDisabledSetVector sys irqn vector globals = some globals') :
    uvisorDisabledGetVector sys irqn globals' = some vector ∧
      (globals'.vectors irqn).boxId = if vector ≠ 0 then globals.callStack globals.callSp else 0 := by
  obtain ⟨⟨boxId, written⟩, howner, rfl⟩ := Option.map_eq_some_iff.mp h
  have hirqn : ¬sys.nvicVectors ≤ irqn := fun hout => by
    rw [setOwner, if_pos hout] at howner
    cases howner
  obtain ⟨rfl, relocated, virqPrioBits, entry, rfl, hentry⟩ := setOwner_spec howner
  rw [uvisorDisabledGetVector, if_neg hirqn]
  simp [setHandler, Function.update_self, hentry]

end Uninterrupted

/-! ## The pointer -/

/-- What an activity relies on, with the boxes that have been entered by it and
by those that it has interrupted. -/
def Fits (a : Activity) (boxes : List ℕ) : Prop :=
  match a.pc with
  | .body | .leaving | .registering _ _ _ => a.boxes ≠ []
  | .checked _ => boxes.length < contextMaxDepth
  | .left src => ∃ below, boxes = src :: below
  | .entering _ | .entered _ => True

/-- Every activity has what it relies on, and the main program is in a box. -/
def Nested : List Activity → Prop
  | [] => True
  | a :: rest => Fits a (nest (a :: rest)) ∧ (rest = [] → a.boxes ≠ []) ∧ Nested rest

/-- The pointer, for the activity that runs. -/
def Points (s : Globals) (a : Activity) (boxes : List ℕ) : Prop :=
  match a.pc with
  | .body | .registering _ _ _ =>
    s.ps = s.psArray ((if a.disturbed then boxes.tail else boxes).headD 0)
  | .entered dst | .checked dst =>
    s.ps = s.psArray (if a.disturbed then boxes.headD 0 else dst)
  | .entering _ | .leaving | .left _ => True

/-- The call stack has the boxes that have been entered, and the pointer follows
them. -/
structure Inv (s : State) : Prop where
  /-- The call stack. -/
  calls : s.globals.calls = nest s.activities
  /-- It has not overflown. -/
  depth : s.globals.callSp < contextMaxDepth
  /-- The activities. -/
  nested : Nested s.activities
  /-- The pointer. -/
  points : ∀ top rest, s.activities = top :: rest →
    Points s.globals top (nest s.activities)

section Pointer

variable {sys : Platform} {s t : State} {top : Activity} {rest : List Activity} {a : Action}

theorem nest_cons (top : Activity) (rest : List Activity) :
    nest (top :: rest) = top.boxes ++ nest rest :=
  List.flatMap_cons

/-- Activities that have been interrupted go on where they were. -/
theorem Nested.resumed (h : Nested (top :: rest)) : Nested (top.resumed :: rest) := h

/-- After the pointer has been set back it is that of the box on top. -/
theorem points_afterLeaving {src : ℕ} {below : List ℕ} (hnested : Nested (top :: rest))
    (hsrc : nest (top :: rest) = src :: below) :
    nest (afterLeaving top rest) = src :: below ∧ Nested (afterLeaving top rest) ∧
      ∀ next others, afterLeaving top rest = next :: others → ∀ globals : Globals,
        globals.ps = globals.psArray src → Points globals next (src :: below) := by
  obtain ⟨-, hroot, hrest⟩ := hnested
  rw [nest_cons] at hsrc
  cases hboxes : top.boxes with
  | nil =>
    rw [hboxes, List.nil_append] at hsrc
    cases rest with
    | nil => exact absurd hboxes (hroot rfl)
    | cons next others =>
      have hafter : afterLeaving top (next :: others) = next.resumed :: others := by
        simp only [afterLeaving, hboxes]
      rw [hafter]
      refine ⟨hsrc, hrest.resumed, fun first last heq globals hps => ?_⟩
      obtain ⟨rfl, rfl⟩ := List.cons.inj heq
      unfold Points Activity.resumed
      cases hpc : next.pc <;> simp [Pc.inWindow, hps]
  | cons box boxes =>
    have hafter : afterLeaving top rest = {top with pc := .body, disturbed := false} :: rest := by
      simp only [afterLeaving, hboxes]
    rw [hafter]
    refine ⟨by rw [nest_cons]; exact hsrc, ⟨?_, fun _ => ?_, hrest⟩,
      fun first last heq globals hps => ?_⟩
    · simp [Fits, hboxes]
    · simp [hboxes]
    · obtain ⟨rfl, rfl⟩ := List.cons.inj heq
      simpa [Points] using hps

theorem inv_initial (h : Initial s) : Inv s where
  calls := by
    rw [h.activities, Globals.calls, h.callSp]
    simp [nest, h.callStack]
  depth := by
    rw [h.callSp]
    decide
  nested := by
    rw [h.activities]
    exact ⟨List.cons_ne_nil _ _, fun _ => List.cons_ne_nil _ _, trivial⟩
  points top rest heq := by
    rw [h.activities] at heq
    obtain ⟨rfl, rfl⟩ := List.cons.inj heq
    exact h.ps.trans (h.psArray _).symm

theorem inv_effect (h : Inv s) (htop : s.activities = top :: rest)
    (heffect : Effect sys s top rest a t) : Inv t := by
  have hcalls := htop ▸ h.calls
  have hpoints := htop ▸ h.points top rest htop
  obtain ⟨hfits, hroot, hrest⟩ : Nested (top :: rest) := htop ▸ h.nested
  have hlength : (nest (top :: rest)).length = s.globals.callSp+1 := by
    rw [← hcalls, calls_length]
  -- the activity that runs is replaced
  have hreplace : ∀ {globals : Globals} {next : Activity} {requested},
      globals.calls = nest (next :: rest) → globals.callSp < contextMaxDepth →
      Fits next (nest (next :: rest)) → (rest = [] → next.boxes ≠ []) →
      Points globals next (nest (next :: rest)) → Inv ⟨globals, next :: rest, requested⟩ :=
    fun hcalls hdepth hfits hroot hpoints => ⟨hcalls, hdepth, ⟨hfits, hroot, hrest⟩,
      fun first last heq => by obtain ⟨rfl, rfl⟩ := List.cons.inj heq; exact hpoints⟩
  cases heffect with
  | call hpc hdst => exact hreplace hcalls h.depth trivial hroot trivial
  | ret hpc =>
    simp only [Fits, hpc] at hfits
    exact hreplace hcalls h.depth hfits hroot trivial
  | setVector hpc howner =>
    obtain ⟨-, relocated, virqPrioBits, entry, rfl, -⟩ := setOwner_spec howner
    simp only [Fits, Points, hpc] at hfits hpoints
    exact hreplace hcalls h.depth hfits hroot hpoints
  | enter hpc hset =>
    obtain ⟨hsame, hps⟩ := setPointer_spec hset
    refine hreplace (hsame.calls.trans hcalls) ?_ trivial hroot ?_
    · have hsp := congrArg List.length hsame.calls
      rw [calls_length, calls_length] at hsp
      have hdepth := h.depth
      omega
    · simpa [Points] using hps
  | check hpc hroom =>
    simp only [hasRoom, Bool.not_eq_true', decide_eq_false_iff_not, not_le] at hroom
    simp only [Points, hpc] at hpoints
    refine hreplace hcalls h.depth ?_ hroot hpoints
    have hlength' : (nest (top :: rest)).length < contextMaxDepth := by omega
    exact hlength'
  | @push dst hpc =>
    simp only [Fits, Points, hpc] at hfits hpoints
    refine hreplace ?_ ?_ (List.cons_ne_nil _ _) (fun _ => List.cons_ne_nil _ _) ?_
    · rw [calls_pushBox, hcalls]
      rfl
    · change s.globals.callSp+1 < contextMaxDepth
      omega
    · have hnest : nest ({top with pc := .body, boxes := dst :: top.boxes} :: rest) =
          dst :: nest (top :: rest) := rfl
      rw [hnest]
      cases hdisturbed : top.disturbed <;>
        simpa [Points, pushBox, hdisturbed] using hpoints
  | @pop src globals hpc hpop =>
    obtain ⟨last, below, hbefore, hafter, rfl⟩ := popBox_spec hpop
    simp only [Fits, hpc] at hfits
    obtain ⟨box, boxes, hboxes⟩ := List.exists_cons_of_ne_nil hfits
    rw [hcalls, nest_cons, hboxes, List.cons_append] at hbefore
    obtain ⟨-, hbelow⟩ := List.cons.inj hbefore
    have htail : top.boxes.tail ++ nest rest = src :: below := by
      rw [hboxes, List.tail_cons]
      exact hbelow
    refine hreplace (hafter.trans htail.symm) ?_ ⟨below, htail⟩ (fun hnil => ?_) trivial
    · exact (Nat.sub_le _ _).trans_lt h.depth
    · intro hempty
      rw [show top.boxes.tail = [] from hempty, hnil] at htail
      cases htail
  | restore hpc =>
    have hleft := hfits
    simp only [Fits, hpc] at hleft
    obtain ⟨below, hsrc⟩ := hleft
    obtain ⟨hnest, hnested, hpointer⟩ := points_afterLeaving ⟨hfits, hroot, hrest⟩ hsrc
    refine ⟨?_, h.depth, hnested, fun next others heq => ?_⟩
    · exact hcalls.trans (hsrc.trans hnest.symm)
    · exact hnest ▸ hpointer next others heq _ rfl
  | register hpc =>
    simp only [Fits, Points, hpc] at hfits hpoints
    exact hreplace hcalls h.depth hfits hroot hpoints
  | interrupt hrelocated hentry =>
    refine ⟨hcalls, h.depth, ⟨trivial, fun hnil => ?_, hfits, hroot, hrest⟩,
      fun first last heq => ?_⟩
    · cases hnil
    · obtain ⟨rfl, rfl⟩ := List.cons.inj heq
      trivial

/-- What holds in a run. -/
theorem inv_reachable {allowed : State → Action → Prop}
    (h : Reachable Initial (step sys) allowed s) : Inv s :=
  h.invariant Inv (fun _ hinit => inv_initial hinit) fun _ _ _ hinv _ hs => by
    obtain ⟨top, rest, htop, heffect⟩ := step_effect hs
    exact inv_effect hinv htop heffect

/-- Wherever interrupts arrive, the call stack has the boxes that have been
entered, and the code of a box runs with its own context, or with that of its
caller: with that exactly if a handler has returned after the pointer had been
set and before the box was pushed. -/
theorem pointer_of_running (h : Reachable Initial (step sys) (fun _ _ => True) s)
    (htop : s.activities = top :: rest) (hpc : top.pc = .body) :
    ∃ box callers, nest s.activities = box :: callers ∧ s.globals.calls = box :: callers ∧
      callers.length < contextMaxDepth ∧
      s.globals.ps = s.globals.psArray (if top.disturbed then callers.headD 0 else box) := by
  have hinv := inv_reachable h
  have hnested := htop ▸ hinv.nested
  have hpoints := hinv.points top rest htop
  have hboxes := hnested.1
  simp only [Fits, Points, hpc] at hboxes hpoints
  obtain ⟨box, boxes, hcons⟩ := List.exists_cons_of_ne_nil hboxes
  have hnest : nest s.activities = box :: (boxes ++ nest rest) := by
    rw [htop, nest_cons, hcons, List.cons_append]
  have hlength := congrArg List.length (hinv.calls.trans hnest)
  rw [calls_length, List.length_cons] at hlength
  have hdepth := hinv.depth
  refine ⟨box, boxes ++ nest rest, hnest, hinv.calls.trans hnest, by omega, ?_⟩
  rw [hnest] at hpoints
  cases hdisturbed : top.disturbed <;> simpa [hdisturbed] using hpoints

end Pointer

end Uvisor.Disabled
