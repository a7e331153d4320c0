import Uvisor.PoolAccesses

/-!
# Draining queues in untrusted memory

Both drains work on bytes that belong to boxes. A queue is validated once, and
then the drains call pool operations on it in between their own writes to
messages, which may overlap any queue. Each call is recorded here with the
memory that it finds. A run with fuel ends where the fuel ends, so that its
record is that of the first passes of a drain that goes on.
-/

namespace Uvisor.RpcAccesses

open Execution RpcMemory PoolAccesses

/-- Constants of a booted system, and the code that is not the monitor's own. -/
structure Platform where
  /-- Start of flash. -/
  flashStart : Word
  /-- End of public flash. -/
  secureStart : Word
  /-- Start of the configuration pointer table. -/
  cfgtblPtrStart : Word
  /-- Number of boxes. -/
  boxCount : ℕ
  /-- The active box. -/
  activeBox : ℤ
  /-- Index of the active box, found at the address that all boxes can read. -/
  uvisorBoxContext : Word
  /-- Start of the memory of each box, also for numbers that are no box. -/
  bss : ℤ → Word
  /-- Size of the memory of each box. -/
  bssSize : ℤ → Word
  /-- The hook that posts to a semaphore. Nothing depends on its status. -/
  semaphorePost : Word → Memory → Memory

/-! ## Calls of pool operations -/

/-- A call of a pool operation, or a step of the walk over function groups. -/
inductive Operation where
  | dequeueFirst (queue : Word)
  | enqueue (queue : Word) (slot : BitVec 8)
  | allocate (queue : Word)
  | free (queue : Word) (slot : BitVec 8)
  | follow (queue : Word) (slot : BitVec 8)

/-- The links that an operation is about to follow lead to slots. -/
def Operation.Linked : Operation → Memory → Prop
  | .dequeueFirst queue, mem => DequeueLinked queue mem
  | .enqueue queue slot, mem => EnqueueLinked queue slot mem
  | .allocate queue, mem => AllocateLinked queue mem
  | .free _ _, _ => True
  | .follow queue slot, mem => slot < poolNum mem (queuePool mem queue)

/-- A call and the memory that it finds. -/
structure Call where
  /-- The operation. -/
  operation : Operation
  /-- Memory before it. -/
  mem : Memory

/-- Memory with the accesses and the calls so far. -/
structure Run where
  /-- Memory and accesses. -/
  traced : Traced
  /-- Calls of pool operations. -/
  calls : List Call

/-- Memory. -/
abbrev Run.mem (r : Run) : Memory := r.traced.mem

/-- Every call has found links that lead to slots. -/
def Run.Linked (r : Run) : Prop := ∀ c ∈ r.calls, c.operation.Linked c.mem

/-- Call an operation. -/
def Run.perform {β : Type} (r : Run) (operation : Operation) (f : Traced → β × Traced) : β × Run :=
  let out := f r.traced
  (out.1, ⟨out.2, r.calls ++ [⟨operation, r.mem⟩]⟩)

/-- Write to memory that is no management array. -/
def Run.write (r : Run) (f : Memory → Memory) : Run :=
  {r with traced := {r.traced with mem := f r.mem}}

/-- uvisor_pool_queue_try_dequeue_first. -/
def Run.tryDequeueFirst (r : Run) (queue : Word) : BitVec 8 × Run :=
  r.perform (.dequeueFirst queue) (uvisorPoolQueueTryDequeueFirst queue)

/-- uvisor_pool_queue_try_enqueue. -/
def Run.tryEnqueue (r : Run) (queue : Word) (slot : BitVec 8) : ℤ × Run :=
  r.perform (.enqueue queue slot) (uvisorPoolQueueTryEnqueue queue slot)

/-- uvisor_pool_queue_try_allocate. -/
def Run.tryAllocate (r : Run) (queue : Word) : BitVec 8 × Run :=
  r.perform (.allocate queue) (uvisorPoolQueueTryAllocate queue)

/-- uvisor_pool_queue_try_free. -/
def Run.tryFree (r : Run) (queue : Word) (slot : BitVec 8) : BitVec 8 × Run :=
  r.perform (.free queue slot) (uvisorPoolQueueTryFree queue slot)

/-- The next slot of a queue that is walked over. -/
def Run.follow (r : Run) (queue : Word) (slot : BitVec 8) : BitVec 8 × Run :=
  r.perform (.follow queue slot) fun t =>
    let pool := queuePool t.mem queue
    (entryNext t.mem pool slot, t.access pool slot)

/-! ## Layout of the structures for remote calls -/

/-- Write a word, least significant byte first. -/
def store32 (mem : Memory) (address value : Word) : Memory :=
  let mem := store8 mem address (value.extractLsb' 0 8)
  let mem := store8 mem (address+1) (value.extractLsb' 8 8)
  let mem := store8 mem (address+2) (value.extractLsb' 16 8)
  store8 mem (address+3) (value.extractLsb' 24 8)

/-- Copy a word. -/
def copy32 (mem : Memory) (dst src : Word) : Memory := store32 mem dst (load32 mem src)

/-- uvisor_rpc. -/
def uvisorRpc (mem : Memory) (index : Word) : Word := load32 mem (index+12)

/-- Queue of the outgoing messages. -/
def outgoingQueue (mem : Memory) (index : Word) : Word := uvisorRpc mem index

/-- Queue of the messages to handle. -/
def todoQueue (mem : Memory) (index : Word) : Word := uvisorRpc mem index+652

/-- Queue of the results. -/
def doneQueue (mem : Memory) (index : Word) : Word := uvisorRpc mem index+664

/-- Queue of the function groups. -/
def fnGroupQueue (mem : Memory) (index : Word) : Word := uvisorRpc mem index+1316

/-- Array of the function groups. -/
def fnGroupArray (mem : Memory) (index : Word) : Word := uvisorRpc mem index+1360

/-- Size of uvisor_rpc_fn_group_t. -/
def fnGroupBytes : ℕ := 44

/-- UVISOR_RPC_MESSAGE_STATE_IDLE. The state takes one byte. -/
def messageStateIdle : BitVec 8 := 1

/-- UVISOR_RPC_MESSAGE_STATE_SENT. -/
def messageStateSent : BitVec 8 := 3

/-- UVISOR_RPC_MESSAGE_STATE_DONE. -/
def messageStateDone : BitVec 8 := 4

/-- Pointer to the gateway of a message. -/
def messageGateway (mem : Memory) (message : Word) : Word := load32 mem (message+16)

/-- The other box of a message. -/
def messageOtherBoxId (mem : Memory) (message : Word) : ℤ := (load32 mem (message+20)).toInt

/-- The token of a message. -/
def messageMatchCookie (mem : Memory) (message : Word) : Word := load32 mem (message+64)

/-- The state of a message. -/
def messageState (mem : Memory) (message : Word) : BitVec 8 := load8 mem (message+68)

/-- Target of a gateway. -/
def gatewayTarget (mem : Memory) (gateway : Word) : Word := load32 mem (gateway+12)

/-- A gateway. -/
def gatewayView (mem : Memory) (gateway : Word) : Rpc.Gateway where
  ldrPc := (load32 mem gateway).toNat
  magic := (load32 mem (gateway+4)).toNat
  boxPtr := (load32 mem (gateway+8)).toNat
  target := (gatewayTarget mem gateway).toNat
  caller := (load32 mem (gateway+16)).toNat

/-- What is found in flash, with the addresses that memory holds. -/
def Platform.view (sys : Platform) (mem : Memory) : Rpc.Platform where
  flashStart := sys.flashStart.toNat
  secureStart := sys.secureStart.toNat
  cfgtblPtrStart := sys.cfgtblPtrStart.toNat
  boxCount := sys.boxCount
  bss box := (sys.bss box).toNat
  bssSize box := (sys.bssSize box).toNat
  gateway address := gatewayView mem (BitVec.ofNat 32 address)
  fnPtr array i := (load32 mem (BitVec.ofNat 32 (array+4*i))).toNat
  outgoingQueue box := (outgoingQueue mem (sys.bss box)).toNat
  incomingQueue name box :=
    match name with
    | .todo => (todoQueue mem (sys.bss box)).toNat
    | .done => (doneQueue mem (sys.bss box)).toNat

/-- is_valid_rpc_gateway. -/
def isValidRpcGateway (sys : Platform) (mem : Memory) (gateway : Word) : Bool :=
  Rpc.isValidRpcGateway (sys.view mem) gateway.toNat

/-- callee_box_id. -/
def calleeBoxId (sys : Platform) (mem : Memory) (gateway : Word) : ℤ :=
  Rpc.calleeBoxId (sys.view mem) (gatewayView mem gateway)

/-- is_valid_queue. -/
def isValidQueueOf (sys : Platform) (mem : Memory) (queue : Word) (boxId : ℤ) : Bool :=
  isValidQueue mem (sys.bss boxId) (sys.bssSize boxId) queue

/-! ## Waking up handlers -/

/-- Variables of the loop over the functions of a group. -/
structure Search where
  /-- Memory. -/
  mem : Memory
  /-- Index of the next function. -/
  i : Word
  /-- Number of posts. -/
  numPosted : ℕ

/-- One pass of the loop over the functions of a group. -/
def searchBody (sys : Platform) (function fnGroup fnPtrArray : Word) (st : Search) : Pass Search :=
  if st.i < load32 st.mem (fnGroup+4) then
    if load32 st.mem (fnPtrArray+4*st.i) = function then
      .next ⟨sys.semaphorePost (fnGroup+8) st.mem, st.i+1, st.numPosted+1⟩
    else .next {st with i := st.i+1}
  else .stop st

/-- Variables of the walk over the function groups. -/
structure Walk where
  /-- Memory, accesses and calls. -/
  run : Run
  /-- Slot of the next group. -/
  slot : BitVec 8
  /-- Number of posts. -/
  numPosted : ℕ

/-- One pass of the walk over the function groups. -/
def wakeUpBody (sys : Platform) (fuel : ℕ) (function queue array : Word) (st : Walk) : Pass Walk :=
  if st.slot < poolNum st.run.mem (queuePool st.run.mem queue) then
    let fnGroup := array+BitVec.ofNat 32 (fnGroupBytes*st.slot.toNat)
    let fnPtrArray := load32 st.run.mem fnGroup
    let searched := attempt (searchBody sys function fnGroup fnPtrArray) fuel
      ⟨st.run.mem, 0, st.numPosted⟩
    let run := st.run.write fun _ => searched.2.mem
    if searched.1 = false then .cut {st with run, numPosted := searched.2.numPosted}
    else
      let next := run.follow queue st.slot
      .next ⟨next.2, next.1, searched.2.numPosted⟩
  else .stop st

/-- wake_up_handlers_for_target. -/
def wakeUpHandlersForTarget (sys : Platform) (fuel : ℕ) (function : Word) (boxId : ℤ) (r : Run) :
    Bool × Walk :=
  let index := sys.bss boxId
  let queue := fnGroupQueue r.mem index
  let array := fnGroupArray r.mem index
  attempt (wakeUpBody sys fuel function queue array) fuel ⟨r, queueHead r.mem queue, 0⟩

/-! ## Draining outgoing messages -/

/-- put_it_back. -/
def putItBack (queue : Word) (slot : BitVec 8) (r : Run) : ℤ × Run := r.tryEnqueue queue slot

/-- Variables of the loop over outgoing messages. -/
structure DrainState where
  /-- Memory, accesses and calls. -/
  run : Run
  /-- First slot seen, or -1. -/
  firstSlot : ℤ

/-- What is written to the two messages when one is delivered. -/
def handOver (sys : Platform) (calleeBox : ℤ) (callerMsg calleeMsg : Word) (mem : Memory) :
    Memory :=
  let mem := copy32 mem calleeMsg callerMsg
  let mem := copy32 mem (calleeMsg+4) (callerMsg+4)
  let mem := copy32 mem (calleeMsg+8) (callerMsg+8)
  let mem := copy32 mem (calleeMsg+12) (callerMsg+12)
  let mem := copy32 mem (calleeMsg+16) (callerMsg+16)
  let mem := store32 mem (calleeMsg+20) (BitVec.ofInt 32 sys.activeBox)
  let mem := copy32 mem (calleeMsg+64) (callerMsg+64)
  let mem := store8 mem (calleeMsg+68) messageStateSent
  let mem := store32 mem (callerMsg+20) (BitVec.ofInt 32 calleeBox)
  store8 mem (callerMsg+68) messageStateSent

/-- The end of a pass: put the message back if there was no room. -/
def restore (callerQueue calleeQueue : Word) (callerSlot calleeSlot : BitVec 8) (r : Run) : Run :=
  if poolNum r.mem (queuePool r.mem calleeQueue) ≤ calleeSlot then
    (putItBack callerQueue callerSlot r).2
  else r

/-- The part of a pass that delivers a message into an allocated slot. -/
def deliver (sys : Platform) (fuel : ℕ) (callerQueue calleeQueue gateway : Word) (calleeBox : ℤ)
    (callerSlot calleeSlot : BitVec 8) (callerMsg calleeMsg : Word) (st : DrainState) :
    Pass DrainState :=
  let run := st.run.write (handOver sys calleeBox callerMsg calleeMsg)
  let enqueued := run.tryEnqueue calleeQueue calleeSlot
  if enqueued.1 ≠ 0 then .next {st with run := (putItBack callerQueue callerSlot enqueued.2).2}
  else
    let target := gatewayTarget enqueued.2.mem gateway
    let woken := wakeUpHandlersForTarget sys fuel target calleeBox enqueued.2
    if woken.1 = false then .cut {st with run := woken.2.run}
    else .next {st with run := restore callerQueue calleeQueue callerSlot calleeSlot woken.2.run}

/-- The part of a pass after a slot has been dequeued that is not the first one
again. -/
def forward (sys : Platform) (fuel : ℕ) (callerQueue callerArray : Word) (callerSlot : BitVec 8)
    (st : DrainState) : Pass DrainState :=
  let callerMsg := messageAt callerArray callerSlot.toNat
  let gateway := messageGateway st.run.mem callerMsg
  if isValidRpcGateway sys st.run.mem gateway = false then .next st
  else
    let calleeBox := calleeBoxId sys st.run.mem gateway
    if calleeBox < 0 then .next st
    else
      let calleeQueue := todoQueue st.run.mem (sys.bss calleeBox)
      let calleeArray := poolArray st.run.mem (queuePool st.run.mem calleeQueue)
      if isValidQueueOf sys st.run.mem calleeQueue calleeBox = false then .next st
      else
        let allocated := st.run.tryAllocate calleeQueue
        let calleeSlot := allocated.1
        let st := {st with run := allocated.2}
        if calleeSlot < poolNum st.run.mem (queuePool st.run.mem calleeQueue) then
          deliver sys fuel callerQueue calleeQueue gateway calleeBox callerSlot calleeSlot callerMsg
            (messageAt calleeArray calleeSlot.toNat) st
        else .next {st with run := restore callerQueue calleeQueue callerSlot calleeSlot st.run}

/-- One pass of the loop of drain_message_queue. -/
def drainMessageBody (sys : Platform) (fuel : ℕ) (callerQueue callerArray : Word)
    (st : DrainState) : Pass DrainState :=
  let dequeued := st.run.tryDequeueFirst callerQueue
  let callerSlot := dequeued.1
  let run := dequeued.2
  if poolNum run.mem (queuePool run.mem callerQueue) ≤ callerSlot then .stop {st with run}
  else if st.firstSlot = -1 then
    forward sys fuel callerQueue callerArray callerSlot ⟨run, callerSlot.toNat⟩
  else if callerSlot.toNat = st.firstSlot then
    .stop {st with run := (putItBack callerQueue callerSlot run).2}
  else forward sys fuel callerQueue callerArray callerSlot {st with run}

/-- drain_message_queue. -/
def drainMessageQueue (sys : Platform) (fuel : ℕ) (mem : Memory) : Run :=
  let callerQueue := outgoingQueue mem sys.uvisorBoxContext
  let callerArray := poolArray mem (queuePool mem callerQueue)
  let run : Run := ⟨⟨mem, []⟩, []⟩
  if isValidQueueOf sys mem callerQueue sys.activeBox = false then run
  else (attempt (drainMessageBody sys fuel callerQueue callerArray) fuel ⟨run, -1⟩).2.run

/-! ## Draining results -/

/-- uvisor_result_slot. -/
def uvisorResultSlot (result : Word) : BitVec 8 := (result &&& 0x3FF).truncate 8

/-- Whether the caller waits for the active box to complete the call that has
the token of the result. -/
def awaitsResult (sys : Platform) (mem : Memory) (callerMsg calleeMsg : Word) : Bool :=
  messageOtherBoxId mem callerMsg = sys.activeBox &&
    messageState mem callerMsg = messageStateSent &&
    messageMatchCookie mem callerMsg = messageMatchCookie mem calleeMsg

/-- What is written to the two messages when a call is completed. -/
def handBack (callerMsg calleeMsg : Word) (mem : Memory) : Memory :=
  let mem := copy32 mem (callerMsg+72) (calleeMsg+72)
  let mem := store8 mem (calleeMsg+68) messageStateIdle
  store8 mem (callerMsg+68) messageStateDone

/-- One pass of the loop of drain_result_queue. -/
def drainResultBody (sys : Platform) (calleeQueue calleeArray : Word) (r : Run) : Pass Run :=
  let dequeued := r.tryDequeueFirst calleeQueue
  let calleeSlot := dequeued.1
  let r := dequeued.2
  if poolNum r.mem (queuePool r.mem calleeQueue) ≤ calleeSlot then .stop r
  else
    let calleeMsg := messageAt calleeArray calleeSlot.toNat
    let callerSlot := uvisorResultSlot (messageMatchCookie r.mem calleeMsg)
    let callerBox := messageOtherBoxId r.mem calleeMsg
    let callerQueue := outgoingQueue r.mem (sys.bss callerBox)
    let callerArray := poolArray r.mem (queuePool r.mem callerQueue)
    if isValidQueueOf sys r.mem callerQueue callerBox = false then .next r
    else
      let callerMsg := messageAt callerArray callerSlot.toNat
      if awaitsResult sys r.mem callerMsg calleeMsg = false then .next r
      else
        let freed := (r.write (handBack callerMsg calleeMsg)).tryFree calleeQueue calleeSlot
        let r := freed.2
        if poolNum r.mem (queuePool r.mem calleeQueue) ≤ freed.1 then .stop r
        else .next (r.write (sys.semaphorePost (callerMsg+24)))

/-- drain_result_queue. -/
def drainResultQueue (sys : Platform) (fuel : ℕ) (mem : Memory) : Run :=
  let calleeQueue := doneQueue mem sys.uvisorBoxContext
  let calleeArray := poolArray mem (queuePool mem calleeQueue)
  let run : Run := ⟨⟨mem, []⟩, []⟩
  if isValidQueueOf sys mem calleeQueue sys.activeBox = false then run
  else (attempt (drainResultBody sys calleeQueue calleeArray) fuel run).2

/-! ## What a call and a write leave behind -/

/-- All accesses so far have stayed within their pools exactly if every call
has found links that lead to slots. -/
def Run.Explained (r : Run) : Prop := r.traced.Within ↔ r.Linked

section Calls

variable {r : Run} (queue : Word) (slot : BitVec 8)

/-- A call accounts for its own accesses. -/
theorem perform_explained {β : Type} {operation : Operation} {f : Traced → β × Traced}
    (hf : ∀ t, (f t).2.Within ↔ t.Within ∧ operation.Linked t.mem) (h : r.Explained) :
    (r.perform operation f).2.Explained := by
  have hcalls : (r.perform operation f).2.Linked ↔ r.Linked ∧ operation.Linked r.mem := by
    simp [Run.perform, Run.Linked, or_imp, forall_and]
  have haccesses : (r.perform operation f).2.traced.Within ↔
      r.traced.Within ∧ operation.Linked r.mem := hf r.traced
  exact haccesses.trans ((and_congr_left' h).trans hcalls.symm)

/-- A write to a message is neither a call nor an access. -/
theorem write_explained (f : Memory → Memory) (h : r.Explained) : (r.write f).Explained := h

theorem tryDequeueFirst_explained (h : r.Explained) : (r.tryDequeueFirst queue).2.Explained :=
  perform_explained (fun t => uvisorPoolQueueTryDequeueFirst_within t queue) h

theorem tryEnqueue_explained (h : r.Explained) : (r.tryEnqueue queue slot).2.Explained :=
  perform_explained (fun t => uvisorPoolQueueTryEnqueue_within t queue slot) h

theorem tryAllocate_explained (h : r.Explained) : (r.tryAllocate queue).2.Explained :=
  perform_explained (fun t => uvisorPoolQueueTryAllocate_within t queue) h

theorem tryFree_explained (h : r.Explained) : (r.tryFree queue slot).2.Explained :=
  perform_explained (fun t =>
    (uvisorPoolQueueTryFree_within t queue slot).trans (and_iff_left trivial).symm) h

theorem follow_explained (h : r.Explained) : (r.follow queue slot).2.Explained :=
  perform_explained (fun t => within_access t _ slot) h

end Calls

/-! ## What a pass leaves behind -/

section Passes

variable (sys : Platform) (fuel : ℕ)

/-- A pass of the walk over function groups. -/
theorem wakeUpBody_explained (function queue array : Word) (st : Walk) (h : st.run.Explained) :
    (wakeUpBody sys fuel function queue array st).state.run.Explained := by
  unfold wakeUpBody
  split
  · dsimp only
    split
    · exact write_explained _ h
    · exact follow_explained _ _ (write_explained _ h)
  · exact h

/-- The walk over function groups. -/
theorem wakeUpHandlersForTarget_explained (function : Word) (boxId : ℤ) {r : Run}
    (h : r.Explained) : (wakeUpHandlersForTarget sys fuel function boxId r).2.run.Explained :=
  attempt_invariant (fun st => st.run.Explained)
    (fun st hst => wakeUpBody_explained sys fuel function _ _ st hst) fuel h

/-- The end of a pass over outgoing messages. -/
theorem restore_explained (callerQueue calleeQueue : Word) (callerSlot calleeSlot : BitVec 8)
    {r : Run} (h : r.Explained) :
    (restore callerQueue calleeQueue callerSlot calleeSlot r).Explained := by
  unfold restore
  split
  · exact tryEnqueue_explained _ _ h
  · exact h

/-- A delivery. -/
theorem deliver_explained (callerQueue calleeQueue gateway : Word) (calleeBox : ℤ)
    (callerSlot calleeSlot : BitVec 8) (callerMsg calleeMsg : Word) {st : DrainState}
    (h : st.run.Explained) : (deliver sys fuel callerQueue calleeQueue gateway calleeBox callerSlot
      calleeSlot callerMsg calleeMsg st).state.run.Explained := by
  have henqueued := tryEnqueue_explained calleeQueue calleeSlot
    (write_explained (handOver sys calleeBox callerMsg calleeMsg) h)
  unfold deliver
  dsimp only
  split
  · exact tryEnqueue_explained _ _ henqueued
  · have hwoken (target : Word) :=
      wakeUpHandlersForTarget_explained sys fuel target calleeBox henqueued
    split
    · exact hwoken _
    · exact restore_explained _ _ _ _ (hwoken _)

/-- A pass from the check of the gateway on. -/
theorem forward_explained (callerQueue callerArray : Word) (callerSlot : BitVec 8)
    {st : DrainState} (h : st.run.Explained) :
    (forward sys fuel callerQueue callerArray callerSlot st).state.run.Explained := by
  unfold forward
  dsimp only
  split
  · exact h
  · split
    · exact h
    · split
      · exact h
      · have hallocated (queue : Word) := tryAllocate_explained queue h
        split
        · exact deliver_explained _ _ _ _ _ _ _ _ _ _ (hallocated _)
        · exact restore_explained _ _ _ _ (hallocated _)

/-- A pass over outgoing messages. -/
theorem drainMessageBody_explained (callerQueue callerArray : Word) (st : DrainState)
    (h : st.run.Explained) :
    (drainMessageBody sys fuel callerQueue callerArray st).state.run.Explained := by
  have hdequeued := tryDequeueFirst_explained callerQueue h
  unfold drainMessageBody
  dsimp only
  split
  · exact hdequeued
  · split
    · exact forward_explained _ _ _ _ _ hdequeued
    · split
      · exact tryEnqueue_explained _ _ hdequeued
      · exact forward_explained _ _ _ _ _ hdequeued

/-- A pass over results. -/
theorem drainResultBody_explained (calleeQueue calleeArray : Word) (r : Run) (h : r.Explained) :
    (drainResultBody sys calleeQueue calleeArray r).state.Explained := by
  have hdequeued := tryDequeueFirst_explained calleeQueue h
  unfold drainResultBody
  dsimp only
  split
  · exact hdequeued
  · split
    · exact hdequeued
    · split
      · exact hdequeued
      · split
        · exact tryFree_explained _ _ (write_explained _ hdequeued)
        · exact write_explained _ (tryFree_explained _ _ (write_explained _ hdequeued))

end Passes

/-! ## Whole drains -/

/-- Nothing has happened yet. -/
theorem explained_start (mem : Memory) : Run.Explained ⟨⟨mem, []⟩, []⟩ := by
  simp [Run.Explained, Run.Linked, Traced.Within]

theorem drainMessageQueue_explained (sys : Platform) (fuel : ℕ) (mem : Memory) :
    (drainMessageQueue sys fuel mem).Explained := by
  unfold drainMessageQueue
  dsimp only
  split
  · exact explained_start mem
  · exact attempt_invariant (s := ⟨⟨⟨mem, []⟩, []⟩, -1⟩) (fun st => st.run.Explained)
      (fun st hst => drainMessageBody_explained sys fuel _ _ st hst) fuel (explained_start mem)

theorem drainResultQueue_explained (sys : Platform) (fuel : ℕ) (mem : Memory) :
    (drainResultQueue sys fuel mem).Explained := by
  unfold drainResultQueue
  dsimp only
  split
  · exact explained_start mem
  · exact attempt_invariant Run.Explained
      (fun r hr => drainResultBody_explained sys _ _ r hr) fuel (explained_start mem)

/-- A system with one box whose memory is 4 KiB long. -/
def sampleSystem : Platform where
  flashStart := 0
  secureStart := 0x1000
  cfgtblPtrStart := 0x100
  boxCount := 2
  activeBox := 1
  uvisorBoxContext := 0x20001000
  bss _ := 0x20001000
  bssSize _ := 0x1000
  semaphorePost _ mem := mem

/-- Memory of a box. Its queue has eight slots and starts with slot 0, whose
next slot is 200. -/
def strayLink : Memory :=
  wordsAt 0x20001000 [0, 0, 0, 0x20001010, BitVec.ofNat 32 PoolQueue.poolQueueMagic, 0x0100,
    0x2000101C, BitVec.ofNat 32 PoolQueue.poolMagic, 0x20001100, 76, 0x00020208, 0xFFC8]

end Uvisor.RpcAccesses
