import Uvisor.RpcAccesses

/-!
# What finished messages index

A pass of drain_result_queue reads the number of the caller's box and the slot
of the caller's message from memory of the callee. The number selects an entry
of the table of boxes before anything is checked, and the slot selects a
message of an array whose length is not looked at. Here the drain records each
index together with the memory in which it is used.
-/

namespace Uvisor.RpcIndices

open Execution RpcMemory PoolAccesses RpcAccesses

/-! ## A record of indices -/

/-- An index that is used. -/
inductive Indexing where
  /-- Index into g_context_current_states. -/
  | contextStates (boxId : ℤ)
  /-- Index into the messages of a caller, with the slots of its pool. -/
  | callerArray (slot num : BitVec 8)

/-- The array has an element for the index. -/
def Indexing.Within (sys : Platform) : Indexing → Prop
  | .contextStates boxId => 0 ≤ boxId ∧ boxId < sys.boxCount
  | .callerArray slot num => slot < num

instance (sys : Platform) : (i : Indexing) → Decidable (i.Within sys)
  | .contextStates boxId => inferInstanceAs (Decidable (0 ≤ boxId ∧ boxId < sys.boxCount))
  | .callerArray slot num => inferInstanceAs (Decidable (slot < num))

/-- Memory, accesses and calls, with the indices so far. -/
structure Indexed where
  /-- Memory, accesses and calls. -/
  run : Run
  /-- Indices. -/
  indexings : List Indexing

/-- All indices so far have been within their arrays. -/
def Indexed.Within (sys : Platform) (s : Indexed) : Prop := ∀ i ∈ s.indexings, i.Within sys

instance (sys : Platform) (s : Indexed) : Decidable (s.Within sys) :=
  inferInstanceAs (Decidable (∀ i ∈ s.indexings, i.Within sys))

/-- Record an index. -/
def Indexed.index (s : Indexed) (i : Indexing) : Indexed := {s with indexings := s.indexings ++ [i]}

/-- is_valid_queue looks up the start and then the size of the memory of a box. -/
def Indexed.lookUp (s : Indexed) (boxId : ℤ) : Indexed :=
  (s.index (.contextStates boxId)).index (.contextStates boxId)

/-- The part of a pass after a finished message has been dequeued. -/
def settle (sys : Platform) (calleeQueue : Word) (calleeSlot : BitVec 8) (calleeMsg : Word)
    (s : Indexed) : Pass Indexed :=
  let mem := s.run.mem
  let callerSlot := uvisorResultSlot (messageMatchCookie mem calleeMsg)
  let callerBox := messageOtherBoxId mem calleeMsg
  let s := s.index (.contextStates callerBox)
  let callerQueue := outgoingQueue mem (sys.bss callerBox)
  let callerPool := queuePool mem callerQueue
  let callerArray := poolArray mem callerPool
  let s := s.lookUp callerBox
  if isValidQueueOf sys mem callerQueue callerBox = false then .next s
  else
    let s := s.index (.callerArray callerSlot (poolNum mem callerPool))
    let callerMsg := messageAt callerArray callerSlot.toNat
    if awaitsResult sys mem callerMsg calleeMsg = false then .next s
    else
      let freed := (s.run.write (handBack callerMsg calleeMsg)).tryFree calleeQueue calleeSlot
      let s := {s with run := freed.2}
      if poolNum s.run.mem (queuePool s.run.mem calleeQueue) ≤ freed.1 then .stop s
      else .next {s with run := s.run.write (sys.semaphorePost (callerMsg+24))}

/-- One pass of the loop of drain_result_queue. -/
def drainResultBody (sys : Platform) (calleeQueue calleeArray : Word) (s : Indexed) :
    Pass Indexed :=
  let dequeued := s.run.tryDequeueFirst calleeQueue
  let calleeSlot := dequeued.1
  let s := {s with run := dequeued.2}
  if poolNum s.run.mem (queuePool s.run.mem calleeQueue) ≤ calleeSlot then .stop s
  else settle sys calleeQueue calleeSlot (messageAt calleeArray calleeSlot.toNat) s

/-- drain_result_queue. -/
def drainResultQueue (sys : Platform) (fuel : ℕ) (mem : Memory) : Indexed :=
  let calleeQueue := doneQueue mem sys.uvisorBoxContext
  let calleeArray := poolArray mem (queuePool mem calleeQueue)
  let s := Indexed.lookUp ⟨⟨⟨mem, []⟩, []⟩, []⟩ sys.activeBox
  if isValidQueueOf sys mem calleeQueue sys.activeBox = false then s
  else (attempt (drainResultBody sys calleeQueue calleeArray) fuel s).2

/-! ## Statement -/

section Statement

variable (sys : Platform) (mem : Memory)

/-- Whatever the drain indexes with, it stays within the table of boxes and
within the messages of the caller. -/
def IndicesValidated : Prop := ∀ fuel, (drainResultQueue sys fuel mem).Within sys

/-- A finished message names a box, and a slot of the pool of that box if its
queue is accepted. -/
def Names (calleeMsg : Word) : Prop :=
  let callerBox := messageOtherBoxId mem calleeMsg
  let callerQueue := outgoingQueue mem (sys.bss callerBox)
  (0 ≤ callerBox ∧ callerBox < sys.boxCount) ∧
    (isValidQueueOf sys mem callerQueue callerBox = true →
      uvisorResultSlot (messageMatchCookie mem calleeMsg) <
        poolNum mem (queuePool mem callerQueue))

/-- The message that a pass is about to take out of the done queue names a box
and a slot. -/
def Addressed (calleeQueue calleeArray : Word) (r : Run) : Prop :=
  let dequeued := r.tryDequeueFirst calleeQueue
  let mem := dequeued.2.mem
  dequeued.1 < poolNum mem (queuePool mem calleeQueue) →
    Names sys mem (messageAt calleeArray dequeued.1.toNat)

instance (calleeMsg : Word) : Decidable (Names sys mem calleeMsg) :=
  inferInstanceAs (Decidable (_ ∧ (_ → _)))

instance (calleeQueue calleeArray : Word) (r : Run) :
    Decidable (Addressed sys calleeQueue calleeArray r) :=
  inferInstanceAs (Decidable (_ → _))

/-- In every pass that the drain makes, the finished message names a box and a
slot of its pool. -/
def MessagesAddressed : Prop :=
  let calleeQueue := doneQueue mem sys.uvisorBoxContext
  let calleeArray := poolArray mem (queuePool mem calleeQueue)
  isValidQueueOf sys mem calleeQueue sys.activeBox = true →
    ∀ r, Visits (fun r => (RpcAccesses.drainResultBody sys calleeQueue calleeArray r).flow)
      ⟨⟨mem, []⟩, []⟩ r → Addressed sys calleeQueue calleeArray r

end Statement

/-! ## The record does not change the drain -/

section Record

variable (sys : Platform) (calleeQueue calleeArray : Word)

theorem drainResultBody_run (s : Indexed) :
    (drainResultBody sys calleeQueue calleeArray s).map Indexed.run =
      RpcAccesses.drainResultBody sys calleeQueue calleeArray s.run := by
  unfold drainResultBody settle RpcAccesses.drainResultBody
  dsimp only [Indexed.lookUp, Indexed.index]
  split_ifs <;> rfl

theorem drainResultQueue_run (fuel : ℕ) (mem : Memory) :
    (drainResultQueue sys fuel mem).run = RpcAccesses.drainResultQueue sys fuel mem := by
  unfold drainResultQueue RpcAccesses.drainResultQueue
  dsimp only
  split
  · rfl
  · exact (congrArg Prod.snd (attempt_map (drainResultBody_run sys _ _) fuel _)).symm

/-! ## Indices of a pass -/

variable {sys calleeQueue calleeArray}

@[simp] theorem index_within (s : Indexed) (i : Indexing) :
    (s.index i).Within sys ↔ s.Within sys ∧ i.Within sys := by
  simp [Indexed.Within, Indexed.index, or_imp, forall_and]

@[simp] theorem lookUp_within (s : Indexed) (boxId : ℤ) :
    (s.lookUp boxId).Within sys ↔ s.Within sys ∧ 0 ≤ boxId ∧ boxId < sys.boxCount := by
  simp [Indexed.lookUp, Indexing.Within]

/-- The state of the drain does not matter for the indices so far. -/
theorem mk_within (r : Run) (s : Indexed) :
    Indexed.Within sys ⟨r, s.indexings⟩ ↔ s.Within sys := Iff.rfl

/-- What follows on a message keeps to the arrays exactly if the message names
a box and a slot. -/
theorem settle_within (calleeSlot : BitVec 8) (calleeMsg : Word) (s : Indexed) :
    (settle sys calleeQueue calleeSlot calleeMsg s).state.Within sys ↔
      s.Within sys ∧ Names sys s.run.mem calleeMsg := by
  unfold settle Names
  dsimp only
  split
  · rename_i hrefused
    simp [Pass.state, Indexing.Within, hrefused]
  · rename_i haccepted
    have hvalid := (Bool.not_eq_false _).mp haccepted
    rw [forall_prop_of_true hvalid]
    split_ifs <;> simp [Pass.state, mk_within, Indexing.Within, and_assoc]

/-- A pass keeps to the arrays exactly if the message that it finds does. -/
theorem drainResultBody_within (s : Indexed) :
    (drainResultBody sys calleeQueue calleeArray s).state.Within sys ↔
      s.Within sys ∧ Addressed sys calleeQueue calleeArray s.run := by
  unfold drainResultBody Addressed
  dsimp only
  split
  · rename_i hempty
    have hnone := BitVec.not_lt.mpr hempty
    exact (and_iff_left fun htaken => absurd htaken hnone).symm
  · rename_i hempty
    have htaken := BitVec.not_le.mp hempty
    rw [settle_within, forall_prop_of_true htaken]
    exact Iff.rfl

/-! ## The whole drain -/

variable {mem : Memory}

end Record

/-! ## A forged message -/

/-- Memory of the box of the small system, which has finished one call. The
first argument is the number of the caller, the second one the token. Its
outgoing pool has one slot. -/
def finishedCall (callerBox cookie : Word) : Memory := fun address =>
  if address < 0x20001200 then
    wordsAt 0x20001000 [0, 0, 0, 0x20001010, BitVec.ofNat 32 PoolQueue.poolQueueMagic, 0xFFFF,
      0x2000101C, BitVec.ofNat 32 PoolQueue.poolMagic, 0x20001100, 76, 0x00FF0101, 0xFEFF] address
  else if address < 0x20001400 then
    wordsAt 0x200012A8 [BitVec.ofNat 32 PoolQueue.poolQueueMagic, 0, 0x200012B4,
      BitVec.ofNat 32 PoolQueue.poolMagic, 0x20001400, 76, 0x00FF0101, 0xFFFF] address
  else wordsAt 0x20001414 [callerBox, 0, 0, 0, 0, 0, 0, 0, 0, 0, 0, cookie] address

/-- A slot past the end of the caller's pool is not noticed either. -/
example : ¬(drainResultQueue sampleSystem 1 (finishedCall 1 0x805)).Within sampleSystem := by
  decide

end Uvisor.RpcIndices
