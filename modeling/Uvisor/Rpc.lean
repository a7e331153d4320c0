import Uvisor.Execution
import Uvisor.PoolQueue
import Mathlib.Algebra.Group.Int.Defs

/-!
# Remote procedure calls between boxes: the monitor's side

Each box keeps an outgoing message queue, an incoming pool with a todo and a
done queue, and a queue of function groups. On every thread switch the
monitor drains the outgoing queue of the active box into the todo queues of
the callees, and its done queue back into the callers' messages. The
assertions of the debug build are absent, as in a release build. Typed box
memory stands for what the pointers of an initialized box lead to.
-/

namespace Uvisor.Rpc

open PoolQueue Execution

/-- Additions on addresses and counters wrap. -/
def wrap (value : ℕ) : ℕ := value%2^32

/-- UVISOR_RPC_GATEWAY_MAGIC_ASYNC. -/
def gatewayMagicAsync : ℕ := udfOpcode 0x07C2

/-- UVISOR_RPC_GATEWAY_MAGIC_SYNC. -/
def gatewayMagicSync : ℕ := udfOpcode 0x07C3

/-- Encoding of a load of the program counter from a label. -/
def ldrPcPcImmOpcode (instr label : ℕ) : ℕ :=
  0xF000F8DF ||| ((wrap (label+2^32-(instr+4)) &&& 0xFFF) <<< 16)

/-- Read-only gateway structure of a callee's function. -/
structure Gateway where
  /-- Instruction that jumps to the caller stub. -/
  ldrPc : ℕ
  /-- Tells synchronous and asynchronous gateways apart from other data. -/
  magic : ℕ
  /-- Address of the callee's entry in the configuration pointer table. -/
  boxPtr : ℕ
  /-- Address of the function to call. -/
  target : ℕ
  /-- Address of the caller stub. -/
  caller : ℕ
  deriving DecidableEq

/-- Progress of a message, on either side. -/
inductive MessageState where
  | invalid
  | idle
  | readyToSend
  | sent
  | done
  deriving DecidableEq

/-- A message in a caller's outgoing or a callee's incoming array. -/
structure Message where
  /-- First argument. -/
  p0 : ℕ
  /-- Second argument. -/
  p1 : ℕ
  /-- Third argument. -/
  p2 : ℕ
  /-- Fourth argument. -/
  p3 : ℕ
  /-- Address of the gateway. -/
  gateway : ℕ
  /-- Destination for callers, source for callees. -/
  otherBoxId : ℤ
  /-- Count of the semaphore posted when a result is ready. -/
  semaphore : ℕ
  /-- Token to wait for, replaced by an invalid one when waited on. -/
  waitCookie : ℕ
  /-- Copy of the token by which the monitor matches results. -/
  matchCookie : ℕ
  /-- Progress of the message. -/
  state : MessageState
  /-- Value returned by the target function. -/
  result : ℕ

/-- A group of functions that one call waits for. -/
structure FnGroup where
  /-- Address of the array of function pointers. -/
  fnPtrArray : ℕ
  /-- Number of functions in the array. -/
  fnCount : ℕ
  /-- Count of the semaphore posted when a message arrives. -/
  semaphore : ℕ

/-- Outgoing messages of a box. -/
structure Outgoing where
  /-- Queue and pool. -/
  queues : PoolQueues Unit
  /-- Message array. -/
  messages : ℕ → Message

/-- The two queues on the incoming pool. -/
inductive IncomingName where
  | todo
  | done
  deriving DecidableEq

/-- Incoming messages of a box. -/
structure Incoming where
  /-- Queues and their shared pool. -/
  queues : PoolQueues IncomingName
  /-- Message array. -/
  messages : ℕ → Message

/-- Function groups of a box. -/
structure FnGroups where
  /-- Queue and pool. -/
  queues : PoolQueues Unit
  /-- Group array. -/
  fnGroups : ℕ → FnGroup

/-- RPC state of one box. -/
structure BoxRpc where
  /-- Outgoing message queue. -/
  outgoing : Outgoing
  /-- Incoming message queues. -/
  incoming : Incoming
  /-- Function group queue. -/
  fnGroups : FnGroups
  /-- Counter for result tokens. -/
  resultCounter : ℕ

/-- Constants of a booted system: memory limits, flash contents, and where the
boxes' structures have been placed. -/
structure Platform where
  /-- Start of flash. -/
  flashStart : ℕ
  /-- End of public flash. -/
  secureStart : ℕ
  /-- Start of the configuration pointer table. -/
  cfgtblPtrStart : ℕ
  /-- Number of boxes. -/
  boxCount : ℕ
  /-- Start of the memory of each box. -/
  bss : ℕ → ℕ
  /-- Size of the memory of each box. -/
  bssSize : ℕ → ℕ
  /-- Gateway found at a flash address. -/
  gateway : ℕ → Gateway
  /-- Entries of the function pointer array found at an address. -/
  fnPtr : ℕ → ℕ → ℕ
  /-- Address of each box's outgoing queue. -/
  outgoingQueue : ℕ → ℕ
  /-- Addresses of each box's incoming queues. -/
  incomingQueue : IncomingName → ℕ → ℕ

/-! ## Tokens -/

/-- UVISOR_RESULT_SLOT_BITS. -/
def resultSlotBits : ℕ := 10

/-- UVISOR_RESULT_SLOT_MASK. -/
def resultSlotMask : ℕ := 1 <<< resultSlotBits-1

/-- UVISOR_RESULT_COUNTER_MASK. -/
def resultCounterMask : ℕ := wrap (0xFFFFFFFF <<< resultSlotBits)

/-- UVISOR_RESULT_COUNTER_INCREMENT. -/
def resultCounterIncrement : ℕ := 2 <<< resultSlotBits

/-- UVISOR_RESULT_INVALID_COUNTER. -/
def resultInvalidCounter : ℕ := resultCounterMask

/-- Slot of a token; the result type is a byte. -/
def uvisorResultSlot (result : ℕ) : ℕ := (result &&& resultSlotMask)%256

/-- Token made of a counter and a slot. -/
def uvisorResultBuild (counter slot : ℕ) : ℕ :=
  (counter &&& resultCounterMask) ||| (slot &&& resultSlotMask)

/-! ## Validation -/

/-- Whether an address lies in public flash. -/
def vmpuPublicFlashAddr (sys : Platform) (addr : ℕ) : Bool :=
  sys.flashStart ≤ addr && addr ≤ wrap (sys.secureStart+2^32-4)

/-- Difference of two word pointers as a signed number of words. -/
def wordPtrDiff (left right : ℕ) : ℤ :=
  let bytes := wrap (left+2^32-right)
  (if bytes < 2^31 then (bytes : ℤ) else (bytes : ℤ)-2^32)/4

/-- Box number of a gateway's callee, or -1. Box 0 cannot be called. -/
def calleeBoxId (sys : Platform) (gateway : Gateway) : ℤ :=
  if gateway.boxPtr%4 ≠ 0 then -1
  else
    let boxId := wordPtrDiff gateway.boxPtr sys.cfgtblPtrStart
    if boxId < 1 ∨ (sys.boxCount : ℤ) ≤ boxId then -1 else boxId

/-- Whether a gateway lies in flash and holds a well-formed call. -/
def isValidRpcGateway (sys : Platform) (address : ℕ) : Bool :=
  let gateway := sys.gateway address
  vmpuPublicFlashAddr sys address && vmpuPublicFlashAddr sys (wrap (address+20)) &&
    (gateway.magic = gatewayMagicAsync || gateway.magic = gatewayMagicSync) &&
    gateway.ldrPc = ldrPcPcImmOpcode 0 16 &&
    0 ≤ calleeBoxId sys gateway &&
    vmpuPublicFlashAddr sys gateway.caller && vmpuPublicFlashAddr sys gateway.target

/-- Whether a queue, its pool and both arrays lie in the memory of a box. The
sizes are those of the queue header, the pool header and one entry. -/
def isValidQueue {ι : Type} (sys : Platform) (address : ℕ) (m : PoolQueues ι) (name : ι)
    (boxId : ℕ) : Bool :=
  let bssStart := sys.bss boxId
  let bssEnd := wrap (bssStart+sys.bssSize boxId)
  let within (start size : ℕ) : Bool := bssStart ≤ start && wrap (start+size) ≤ bssEnd
  let pool := (m.queue name).pool
  within address 12 && (m.queue name).magic = poolQueueMagic &&
    within pool 16 && m.pool.magic = poolMagic &&
    within (wrap (pool+16)) (2*m.pool.num) &&
    within m.pool.array (wrap (m.pool.stride*m.pool.num))

/-! ## Waking up handlers -/

/-- The semaphores used here are created with this maximum count. -/
def semaphoreMaxCount : ℕ := 1

/-- Post to a semaphore, whose count saturates. -/
def semaphorePost (count : ℕ) : ℕ := if count < semaphoreMaxCount then count+1 else count

/-- Post once for every entry of the group that is the function. -/
def postFnGroup (sys : Platform) (function : ℕ) (group : FnGroup) : ℕ → FnGroup × ℕ
  | 0 => (group, 0)
  | i+1 =>
    let earlier := postFnGroup sys function group i
    if sys.fnPtr group.fnPtrArray i = function then
      ({earlier.1 with semaphore := semaphorePost earlier.1.semaphore}, earlier.2+1)
    else earlier

/-- Walk over the queue of function groups, posting on the way. There is no
result when the walk does not end within its fuel. -/
def wakeUpFrom (sys : Platform) (function : ℕ) : ℕ → ℕ → FnGroups → ℕ → Option (FnGroups × ℕ)
  | 0, _, _, _ => none
  | fuel+1, slot, groups, posted =>
    if slot < groups.queues.pool.num then
      let group := groups.fnGroups slot
      let out := postFnGroup sys function group group.fnCount
      wakeUpFrom sys function fuel (groups.queues.pool.next slot)
        {groups with fnGroups := Function.update groups.fnGroups slot out.1} (posted+out.2)
    else some (groups, posted)

/-- Wake up all potential handlers of a function, and count the posts. -/
def wakeUpHandlersForTarget (sys : Platform) (function : ℕ) (groups : FnGroups) :
    Option (FnGroups × ℕ) :=
  wakeUpFrom sys function 257 (groups.queues.queue ()).head groups 0

/-! ## Draining -/

/-- Enqueue again what was dequeued; a failure cannot be handled. -/
def putItBack {ι : Type} [DecidableEq ι] (m : PoolQueues ι) (name : ι) (slot : ℕ) :
    PoolQueues ι :=
  (uvisorPoolQueueTryEnqueue m name slot).2

/-- Memory of all boxes. -/
abbrev Boxes := ℕ → BoxRpc

/-- Replace the outgoing queue structures of a box. -/
def Boxes.setOutgoing (boxes : Boxes) (box : ℕ) (queues : PoolQueues Unit) : Boxes :=
  let rpc := boxes box
  Function.update boxes box {rpc with outgoing := ⟨queues, rpc.outgoing.messages⟩}

/-- Replace one outgoing message of a box. -/
def Boxes.setOutgoingMessage (boxes : Boxes) (box slot : ℕ) (msg : Message) : Boxes :=
  let rpc := boxes box
  let messages := Function.update rpc.outgoing.messages slot msg
  Function.update boxes box {rpc with outgoing := ⟨rpc.outgoing.queues, messages⟩}

/-- Replace the incoming queue structures of a box. -/
def Boxes.setIncoming (boxes : Boxes) (box : ℕ) (queues : PoolQueues IncomingName) : Boxes :=
  let rpc := boxes box
  Function.update boxes box {rpc with incoming := ⟨queues, rpc.incoming.messages⟩}

/-- Replace one incoming message of a box. -/
def Boxes.setIncomingMessage (boxes : Boxes) (box slot : ℕ) (msg : Message) : Boxes :=
  let rpc := boxes box
  let messages := Function.update rpc.incoming.messages slot msg
  Function.update boxes box {rpc with incoming := ⟨rpc.incoming.queues, messages⟩}

/-- Replace the function groups of a box. -/
def Boxes.setFnGroups (boxes : Boxes) (box : ℕ) (groups : FnGroups) : Boxes :=
  Function.update boxes box {boxes box with fnGroups := groups}

/-- Variables of the draining loop of outgoing messages. -/
structure DrainState where
  /-- Memory of all boxes. -/
  boxes : Boxes
  /-- First slot seen by this call, or -1. -/
  firstSlot : ℤ

/-- The callee's copy of a caller's message. Fields that are not written keep
the values of the slot's earlier use. -/
def calleeCopy (old callerMsg : Message) (callerBox : ℕ) : Message :=
  {old with
    p0 := callerMsg.p0, p1 := callerMsg.p1, p2 := callerMsg.p2, p3 := callerMsg.p3,
    gateway := callerMsg.gateway, otherBoxId := callerBox,
    matchCookie := callerMsg.matchCookie, state := .sent}

/-- The part of the loop body that delivers a validated message into an
allocated callee slot. -/
def deliver (sys : Platform) (callerBox calleeBox callerSlot calleeSlot : ℕ) (firstSlot : ℤ)
    (boxes : Boxes) : Flow DrainState :=
  let callerMsg := (boxes callerBox).outgoing.messages callerSlot
  let old := (boxes calleeBox).incoming.messages calleeSlot
  let boxes := boxes.setIncomingMessage calleeBox calleeSlot (calleeCopy old callerMsg callerBox)
  let boxes := boxes.setOutgoingMessage callerBox callerSlot
    {callerMsg with otherBoxId := calleeBox, state := .sent}
  let enqueued := uvisorPoolQueueTryEnqueue (boxes calleeBox).incoming.queues .todo calleeSlot
  let boxes := boxes.setIncoming calleeBox enqueued.2
  if enqueued.1 ≠ 0 then
    .next ⟨boxes.setOutgoing callerBox
      (putItBack (boxes callerBox).outgoing.queues () callerSlot), firstSlot⟩
  else
    let target := (sys.gateway callerMsg.gateway).target
    match wakeUpHandlersForTarget sys target (boxes calleeBox).fnGroups with
    | none => .hang
    | some woken => .next ⟨boxes.setFnGroups calleeBox woken.1, firstSlot⟩

/-- The part of the loop body after a slot has been dequeued and is not the
remembered one. -/
def forward (sys : Platform) (callerBox callerSlot : ℕ) (firstSlot : ℤ) (boxes : Boxes) :
    Flow DrainState :=
  let callerMsg := (boxes callerBox).outgoing.messages callerSlot
  if isValidRpcGateway sys callerMsg.gateway = false then .next ⟨boxes, firstSlot⟩
  else
    let calleeBoxInt := calleeBoxId sys (sys.gateway callerMsg.gateway)
    if calleeBoxInt < 0 then .next ⟨boxes, firstSlot⟩
    else
      let calleeBox := calleeBoxInt.toNat
      let queues := (boxes calleeBox).incoming.queues
      if isValidQueue sys (sys.incomingQueue .todo calleeBox) queues .todo calleeBox = false then
        .next ⟨boxes, firstSlot⟩
      else
        let allocated := uvisorPoolTryAllocate queues
        let boxes := boxes.setIncoming calleeBox allocated.2
        if allocated.1 < queues.pool.num then
          deliver sys callerBox calleeBox callerSlot allocated.1 firstSlot boxes
        else
          .next ⟨boxes.setOutgoing callerBox
            (putItBack (boxes callerBox).outgoing.queues () callerSlot), firstSlot⟩

/-- One pass of the loop of drain_message_queue. -/
def drainMessageBody (sys : Platform) (callerBox : ℕ) (st : DrainState) : Flow DrainState :=
  let queues := (st.boxes callerBox).outgoing.queues
  let dequeued := uvisorPoolQueueTryDequeueFirst queues ()
  let callerSlot := dequeued.1
  let boxes := st.boxes.setOutgoing callerBox dequeued.2
  if queues.pool.num ≤ callerSlot then .stop ⟨boxes, st.firstSlot⟩
  else if st.firstSlot = -1 then forward sys callerBox callerSlot callerSlot boxes
  else if (callerSlot : ℤ) = st.firstSlot then
    .stop ⟨boxes.setOutgoing callerBox
      (putItBack (boxes callerBox).outgoing.queues () callerSlot), st.firstSlot⟩
  else forward sys callerBox callerSlot st.firstSlot boxes

/-- Drain the outgoing messages of the active box, with fuel for the loop. -/
def drainMessageQueue (sys : Platform) (callerBox fuel : ℕ) (boxes : Boxes) : Option Boxes :=
  let queues := (boxes callerBox).outgoing.queues
  if isValidQueue sys (sys.outgoingQueue callerBox) queues () callerBox = false then some boxes
  else (iterate (drainMessageBody sys callerBox) fuel ⟨boxes, -1⟩).map DrainState.boxes

/-- Whether the caller's queue is in order and its message waits for this box
to complete the call that has the token of the result. -/
def acceptsResult (sys : Platform) (calleeBox callerBox callerSlot : ℕ) (calleeMsg : Message)
    (boxes : Boxes) : Bool :=
  let callerQueues := (boxes callerBox).outgoing.queues
  let callerMsg := (boxes callerBox).outgoing.messages callerSlot
  isValidQueue sys (sys.outgoingQueue callerBox) callerQueues () callerBox &&
    callerMsg.otherBoxId = calleeBox && callerMsg.state = .sent &&
    callerMsg.matchCookie = calleeMsg.matchCookie

/-- The part of the loop of drain_result_queue after the checks: copy the
result, free the callee's slot and post to the caller. -/
def complete (calleeBox calleeSlot callerBox callerSlot : ℕ) (boxes : Boxes) : Flow Boxes :=
  let calleeMsg := (boxes calleeBox).incoming.messages calleeSlot
  let callerMsg := (boxes callerBox).outgoing.messages callerSlot
  let boxes := boxes.setIncomingMessage calleeBox calleeSlot {calleeMsg with state := .idle}
  let written := {callerMsg with result := calleeMsg.result, state := .done}
  let boxes := boxes.setOutgoingMessage callerBox callerSlot written
  let queues := (boxes calleeBox).incoming.queues
  let freed := uvisorPoolTryFree queues calleeSlot
  let boxes := boxes.setIncoming calleeBox freed.2
  if queues.pool.num ≤ freed.1 then .stop boxes
  else
    .next (boxes.setOutgoingMessage callerBox callerSlot
      {written with semaphore := semaphorePost written.semaphore})

/-- One pass of the loop of drain_result_queue. A caller number outside the
table of boxes has no defined meaning and ends the model's account. -/
def drainResultBody (sys : Platform) (calleeBox : ℕ) (boxes : Boxes) : Flow Boxes :=
  let queues := (boxes calleeBox).incoming.queues
  let dequeued := uvisorPoolQueueTryDequeueFirst queues .done
  let calleeSlot := dequeued.1
  let boxes := boxes.setIncoming calleeBox dequeued.2
  if queues.pool.num ≤ calleeSlot then .stop boxes
  else
    let calleeMsg := (boxes calleeBox).incoming.messages calleeSlot
    let callerSlot := uvisorResultSlot calleeMsg.matchCookie
    if calleeMsg.otherBoxId < 0 ∨ (sys.boxCount : ℤ) ≤ calleeMsg.otherBoxId then .hang
    else
      let callerBox := calleeMsg.otherBoxId.toNat
      if acceptsResult sys calleeBox callerBox callerSlot calleeMsg boxes then
        complete calleeBox calleeSlot callerBox callerSlot boxes
      else .next boxes

/-- Drain the finished calls of the active box, with fuel for the loop. -/
def drainResultQueue (sys : Platform) (calleeBox fuel : ℕ) (boxes : Boxes) : Option Boxes :=
  let queues := (boxes calleeBox).incoming.queues
  if isValidQueue sys (sys.incomingQueue .done calleeBox) queues .done calleeBox = false then
    some boxes
  else iterate (drainResultBody sys calleeBox) fuel boxes

end Uvisor.Rpc
