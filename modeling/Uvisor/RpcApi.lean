import Uvisor.Rpc

/-!
# Remote procedure calls between boxes: the library in each box

Callers claim an outgoing slot, take a fresh token, fill the message in and
queue it; they wait on the semaphore of the slot and free it after reading
the result. Handlers register a function group, wait on its semaphore, and
find, dequeue, run and finish one message. Each function below touches shared
memory once, so that sequences of them can be interleaved. An operation on a
held lock has no result.
-/

namespace Uvisor.RpcApi

open PoolQueue Rpc

/-! ## Initialization -/

/-- UVISOR_RPC_OUTGOING_MESSAGE_SLOTS. -/
def outgoingMessageSlots : ℕ := 8

/-- UVISOR_RPC_INCOMING_MESSAGE_SLOTS. -/
def incomingMessageSlots : ℕ := 8

/-- UVISOR_RPC_FN_GROUP_SLOTS. -/
def fnGroupSlots : ℕ := 8

/-- Addresses and sizes of the RPC structures of a box. -/
structure Layout where
  /-- Address of the outgoing pool. -/
  outgoingPool : ℕ
  /-- Address of the outgoing messages. -/
  outgoingMessages : ℕ
  /-- Address of the incoming pool. -/
  incomingPool : ℕ
  /-- Address of the incoming messages. -/
  incomingMessages : ℕ
  /-- Address of the function group pool. -/
  fnGroupPool : ℕ
  /-- Address of the function groups. -/
  fnGroups : ℕ
  /-- Size of a message. -/
  messageSize : ℕ
  /-- Size of a function group. -/
  fnGroupSize : ℕ

/-- Semaphores are created with count zero. -/
def semaphoreInitCount : ℕ := 0

/-- Initialize the queues of a box. The incoming pool is initialized once for
each of its two queues. -/
def uvisorInitializeRpcQueues (layout : Layout) (rpc : BoxRpc) : BoxRpc :=
  let outgoing := (uvisorPoolQueueInit rpc.outgoing.queues () layout.outgoingPool
    layout.outgoingMessages layout.messageSize outgoingMessageSlots).2
  let messages := fun slot =>
    let msg := rpc.outgoing.messages slot
    if slot < outgoingMessageSlots then {msg with semaphore := semaphoreInitCount} else msg
  let todo := (uvisorPoolQueueInit rpc.incoming.queues .todo layout.incomingPool
    layout.incomingMessages layout.messageSize incomingMessageSlots).2
  let incoming := (uvisorPoolQueueInit todo .done layout.incomingPool
    layout.incomingMessages layout.messageSize incomingMessageSlots).2
  let groups := (uvisorPoolQueueInit rpc.fnGroups.queues () layout.fnGroupPool
    layout.fnGroups layout.fnGroupSize fnGroupSlots).2
  let fnGroups := fun slot =>
    let group := rpc.fnGroups.fnGroups slot
    if slot < fnGroupSlots then {group with semaphore := semaphoreInitCount} else group
  ⟨⟨outgoing, messages⟩, ⟨incoming, rpc.incoming.messages⟩, ⟨groups, fnGroups⟩, rpc.resultCounter⟩

/-! ## Callers -/

/-- Arguments and gateway of a call. -/
structure Call where
  /-- First argument. -/
  p0 : ℕ
  /-- Second argument. -/
  p1 : ℕ
  /-- Third argument. -/
  p2 : ℕ
  /-- Fourth argument. -/
  p3 : ℕ
  /-- Address of the gateway. -/
  gateway : ℕ
  deriving DecidableEq

/-- Claim a slot in the outgoing queue. -/
def claimOutgoing (rpc : BoxRpc) : Option (ℕ × BoxRpc) :=
  (uvisorPoolAllocate rpc.outgoing.queues).map fun claimed =>
    (claimed.1, {rpc with outgoing := ⟨claimed.2, rpc.outgoing.messages⟩})

/-- Atomically increment the counter. -/
def nextCounter (rpc : BoxRpc) : ℕ × BoxRpc :=
  let counter := wrap (rpc.resultCounter+resultCounterIncrement)
  (counter, {rpc with resultCounter := counter})

/-- Message of a call. The box it goes to, the semaphore and the result are
not written. -/
def populated (old : Message) (call : Call) (counter slot : ℕ) : Message :=
  let cookie := uvisorResultBuild counter slot
  {old with
    p0 := call.p0, p1 := call.p1, p2 := call.p2, p3 := call.p3, gateway := call.gateway,
    waitCookie := cookie, matchCookie := cookie, state := .readyToSend}

/-- Write an outgoing message of the box itself. -/
def writeOutgoing (rpc : BoxRpc) (slot : ℕ) (msg : Message) : BoxRpc :=
  let messages := Function.update rpc.outgoing.messages slot msg
  {rpc with outgoing := ⟨rpc.outgoing.queues, messages⟩}

/-- Populate the message. -/
def populate (rpc : BoxRpc) (call : Call) (counter slot : ℕ) : BoxRpc :=
  writeOutgoing rpc slot (populated (rpc.outgoing.messages slot) call counter slot)

/-- Put the slot into the outgoing queue. -/
def enqueueOutgoing (rpc : BoxRpc) (slot : ℕ) : Option BoxRpc :=
  (uvisorPoolQueueEnqueue rpc.outgoing.queues () slot).map fun queues =>
    {rpc with outgoing := ⟨queues, rpc.outgoing.messages⟩}

/-- Place a message into the outgoing queue. The status is negative when no
slot is available; the token is that of the message. -/
def sendOutgoingRpc (rpc : BoxRpc) (call : Call) : Option (ℤ × ℕ × BoxRpc) := do
  let (slot, rpc) ← claimOutgoing rpc
  if rpc.outgoing.queues.pool.num ≤ slot then return (-1, 0, rpc)
  let (counter, rpc) := nextCounter rpc
  let rpc := populate rpc call counter slot
  let rpc ← enqueueOutgoing rpc slot
  return (0, (rpc.outgoing.messages slot).matchCookie, rpc)

/-- Take one count of a semaphore, or block. -/
def semaphorePend (count : ℕ) : Option ℕ := if 0 < count then some (count-1) else none

/-- Wait for the result of the message in a slot. -/
def waitForRpcResult (rpc : BoxRpc) (slot : ℕ) : Option BoxRpc :=
  let msg := rpc.outgoing.messages slot
  (semaphorePend msg.semaphore).map fun count => writeOutgoing rpc slot {msg with semaphore := count}

/-- Free the outgoing message. A slot that is not in the dequeued state halts
the box. -/
def freeOutgoingMsg (rpc : BoxRpc) (slot : ℕ) : Option BoxRpc :=
  if rpc.outgoing.queues.pool.prev slot ≠ slotIsDequeued then none
  else (uvisorPoolFree rpc.outgoing.queues slot).map fun freed =>
    {rpc with outgoing := ⟨freed.2, rpc.outgoing.messages⟩}

/-- The compare-and-swap at the start of a wait: whether the token was still
valid, and the box with the token invalidated. -/
def claimWait (rpc : BoxRpc) (result : ℕ) : Bool × BoxRpc :=
  let slot := uvisorResultSlot result
  let invalid := uvisorResultBuild resultInvalidCounter slot
  let msg := rpc.outgoing.messages slot
  if msg.waitCookie = result then (true, writeOutgoing rpc slot {msg with waitCookie := invalid})
  else (false, rpc)

/-! ## Handlers -/

/-- Slot of the function group of an array, by linear search. -/
def getFunctionGroup (rpc : BoxRpc) (fnPtrArray : ℕ) : Option ℕ :=
  (List.range rpc.fnGroups.queues.pool.num).find? fun slot =>
    (rpc.fnGroups.fnGroups slot).fnPtrArray = fnPtrArray

/-- Write a function group. -/
def writeFnGroup (rpc : BoxRpc) (slot : ℕ) (group : FnGroup) : BoxRpc :=
  let fnGroups := Function.update rpc.fnGroups.fnGroups slot group
  {rpc with fnGroups := ⟨rpc.fnGroups.queues, fnGroups⟩}

/-- Claim a slot for a new function group and fill it in. -/
def claimFunctionGroup (rpc : BoxRpc) (fnPtrArray fnCount : ℕ) : Option (Option ℕ × BoxRpc) :=
  (uvisorPoolAllocate rpc.fnGroups.queues).map fun claimed =>
    let rpc : BoxRpc := {rpc with fnGroups := ⟨claimed.2, rpc.fnGroups.fnGroups⟩}
    if claimed.2.pool.num ≤ claimed.1 then (none, rpc)
    else
      let old := rpc.fnGroups.fnGroups claimed.1
      (some claimed.1, writeFnGroup rpc claimed.1 ⟨fnPtrArray, fnCount, old.semaphore⟩)

/-- Put the function group into its queue. -/
def enqueueFunctionGroup (rpc : BoxRpc) (slot : ℕ) : Option BoxRpc :=
  (uvisorPoolQueueEnqueue rpc.fnGroups.queues () slot).map fun queues =>
    {rpc with fnGroups := ⟨queues, rpc.fnGroups.fnGroups⟩}

/-- Whether a function group contains the target of a message. -/
def queryForFnGroup (sys : Platform) (group : FnGroup) (msg : Message) : Bool :=
  (List.range group.fnCount).any fun i =>
    (sys.gateway msg.gateway).target = sys.fnPtr group.fnPtrArray i

/-- Find a message that a function group can handle. -/
def findIncoming (sys : Platform) (rpc : BoxRpc) (group : FnGroup) : Option (ℕ × BoxRpc) :=
  (uvisorPoolQueueFindFirst rpc.incoming.queues .todo fun slot =>
    queryForFnGroup sys group (rpc.incoming.messages slot)).map fun found =>
      (found.1, {rpc with incoming := ⟨found.2, rpc.incoming.messages⟩})

/-- Dequeue the message that was found. -/
def dequeueIncoming (rpc : BoxRpc) (slot : ℕ) : Option (ℕ × BoxRpc) :=
  (uvisorPoolQueueDequeue rpc.incoming.queues .todo slot).map fun dequeued =>
    (dequeued.1, {rpc with incoming := ⟨dequeued.2, rpc.incoming.messages⟩})

/-- Whether the gateway of a dequeued message has a good magic. -/
def hasGatewayMagic (sys : Platform) (msg : Message) : Bool :=
  (sys.gateway msg.gateway).magic = gatewayMagicAsync ||
    (sys.gateway msg.gateway).magic = gatewayMagicSync

/-- Write an incoming message of the box itself. -/
def writeIncoming (rpc : BoxRpc) (slot : ℕ) (msg : Message) : BoxRpc :=
  let messages := Function.update rpc.incoming.messages slot msg
  {rpc with incoming := ⟨rpc.incoming.queues, messages⟩}

/-- Store what the target function returned. -/
def storeResult (rpc : BoxRpc) (slot value : ℕ) : BoxRpc :=
  writeIncoming rpc slot {rpc.incoming.messages slot with result := value, state := .done}

/-- Send the result back to the caller. -/
def enqueueDone (rpc : BoxRpc) (slot : ℕ) : Option BoxRpc :=
  (uvisorPoolQueueEnqueue rpc.incoming.queues .done slot).map fun queues =>
    {rpc with incoming := ⟨queues, rpc.incoming.messages⟩}

/-- Wait on the semaphore of a function group. -/
def pendFnGroup (rpc : BoxRpc) (slot : ℕ) : Option BoxRpc :=
  let group := rpc.fnGroups.fnGroups slot
  (semaphorePend group.semaphore).map fun count =>
    writeFnGroup rpc slot {group with semaphore := count}

end Uvisor.RpcApi
