import Uvisor.Execution
import Uvisor.PoolQueue

/-!
# Draining the IPC send queue

A box posts send and receive requests in two pool queues of its own. On the
sender's behalf the monitor goes through the send queue, looks for a matching
receive request in the destination box, copies the message and marks both
requests complete. Requests name a descriptor and a buffer by address, so
descriptors live in one memory shared by all requests.
-/

namespace Uvisor.Ipc

open Execution PoolQueue

/-- UVISOR_IPC_SEND_SLOTS, which is also UVISOR_IPC_RECV_SLOTS. -/
def ipcSlots : ℕ := 16

/-- UVISOR_BOX_ID_INVALID, which a receive request uses for any box. -/
def boxIdInvalid : ℤ := 255

/-- State of a request. -/
inductive IoState where
  | invalid
  | idle
  | readyToSend
  | readyToRecv
  | valid
  deriving DecidableEq

/-- A request in the send or the receive array. -/
structure Io where
  /-- Address of the descriptor. -/
  desc : ℕ
  /-- Address of the message buffer. -/
  msg : ℕ
  /-- Progress of the request. -/
  state : IoState
  deriving DecidableEq

/-- A descriptor. -/
structure Desc where
  /-- Destination of a send, permitted or actual source of a receive. -/
  boxId : ℤ
  /-- Port of the message. -/
  port : ℕ
  /-- Length of the message, or room for one. -/
  len : ℕ
  /-- One-bit token of the request. -/
  token : ℕ
  deriving DecidableEq

/-- IPC state of one box. -/
structure BoxIpc where
  /-- Send queue and its pool. -/
  sendQueue : PoolQueues Unit
  /-- Send requests. -/
  sendIo : ℕ → Io
  /-- Receive queue and its pool. -/
  recvQueue : PoolQueues Unit
  /-- Receive requests. -/
  recvIo : ℕ → Io
  /-- Whether the lock on the tokens is acquired. -/
  tokensLock : Bool
  /-- Tokens in use. -/
  allocatedTokens : ℕ
  /-- Tokens of completed requests. -/
  completedTokens : ℕ

/-- All memory the drain reads or writes. -/
structure Memory where
  /-- IPC state of each box. -/
  box : ℕ → BoxIpc
  /-- Descriptors by address. -/
  desc : ℕ → Desc
  /-- Bytes of the message buffers by address. -/
  byte : ℕ → UInt8

/-- Constants of a booted system. -/
structure Platform where
  /-- Number of boxes. -/
  boxCount : ℕ
  /-- Address of the IPC state of each box. -/
  ipc : ℕ → ℕ
  /-- vmpu_buffer_access_is_ok for a box, an address and a size. -/
  bufferAccessIsOk : ℕ → ℕ → ℕ → Bool

/-! ## Validation -/

/-- Offset of the receive queue in the IPC state. -/
def recvQueueOffset : ℕ := 252

/-- Offset of the request array in a queue structure. -/
def ioOffset : ℕ := 60

/-- Size of the IPC state. -/
def ipcSize : ℕ := 516

/-- Size of a request. -/
def ioSize : ℕ := 12

/-- Size of a descriptor. -/
def descSize : ℕ := 16

/-- Whether the IPC state of a box is its own. -/
def ipcIsOk (sys : Platform) (box ipc : ℕ) : Bool :=
  ipc ≠ 0 && sys.bufferAccessIsOk box ipc ipcSize

/-- Whether a request array is the box's own. -/
def ipcIoArrayIsOk (sys : Platform) (box array : ℕ) : Bool :=
  array ≠ 0 && sys.bufferAccessIsOk box array (ioSize*ipcSlots)

/-- Whether a queue, its pool header and its data slots are the box's own. -/
def poolQueueIsOk (sys : Platform) (box queue : ℕ) (m : PoolQueues Unit) : Bool :=
  queue ≠ 0 && sys.bufferAccessIsOk box queue 12 &&
    (m.queue ()).pool ≠ 0 && sys.bufferAccessIsOk box (m.queue ()).pool 16 &&
    sys.bufferAccessIsOk box m.pool.array (m.pool.stride*m.pool.num%2^32)

/-- Whether a request, its descriptor and its buffer are the box's own. -/
def ipcIoIsOk (sys : Platform) (box address : ℕ) (io : Io) (desc : ℕ → Desc) : Bool :=
  address ≠ 0 && sys.bufferAccessIsOk box address ioSize &&
    io.desc ≠ 0 && sys.bufferAccessIsOk box io.desc descSize &&
    sys.bufferAccessIsOk box io.msg (desc io.desc).len

/-- Address of a send request. -/
def sendIoAddress (sys : Platform) (box slot : ℕ) : ℕ := sys.ipc box+ioOffset+ioSize*slot

/-- Address of a receive request. -/
def recvIoAddress (sys : Platform) (box slot : ℕ) : ℕ :=
  sys.ipc box+recvQueueOffset+ioOffset+ioSize*slot

/-- The three checks made on the sending box before the loop. -/
def senderIsOk (sys : Platform) (box : ℕ) (m : PoolQueues Unit) : Bool :=
  ipcIsOk sys box (sys.ipc box) && poolQueueIsOk sys box (sys.ipc box) m &&
    ipcIoArrayIsOk sys box (sys.ipc box+ioOffset)

/-- The three checks made on a receiving box in the loop. -/
def receiverIsOk (sys : Platform) (box : ℕ) (m : PoolQueues Unit) : Bool :=
  ipcIsOk sys box (sys.ipc box) && poolQueueIsOk sys box (sys.ipc box+recvQueueOffset) m &&
    ipcIoArrayIsOk sys box (sys.ipc box+recvQueueOffset+ioOffset)

/-! ## Matching and delivering -/

/-- Whether a receive request can take the message of a send request. -/
def recvMatch (sendBox : ℕ) (sendDesc recvDesc : Desc) (recvState : IoState) : Bool :=
  if recvState ≠ .readyToRecv then false
  else if (sendBox : ℤ) ≠ recvDesc.boxId ∧ recvDesc.boxId ≠ boxIdInvalid then false
  else if sendDesc.port ≠ recvDesc.port then false
  else if recvDesc.len < sendDesc.len then false
  else true

/-- Copy bytes between two buffers. -/
def memcpy (byte : ℕ → UInt8) (dst src len : ℕ) : ℕ → UInt8 := fun address =>
  if dst ≤ address ∧ address < dst+len then byte (src+(address-dst)) else byte address

/-- Replace the IPC state of one box. -/
def Memory.setBox (mem : Memory) (box : ℕ) (ipc : BoxIpc) : Memory :=
  {mem with box := Function.update mem.box box ipc}

/-- Replace the send queue structures of a box. -/
def Memory.setSendQueue (mem : Memory) (box : ℕ) (queues : PoolQueues Unit) : Memory :=
  mem.setBox box {mem.box box with sendQueue := queues}

/-- Replace the receive queue structures of a box. -/
def Memory.setRecvQueue (mem : Memory) (box : ℕ) (queues : PoolQueues Unit) : Memory :=
  mem.setBox box {mem.box box with recvQueue := queues}

/-- Replace the token lock of a box. -/
def Memory.setTokensLock (mem : Memory) (box : ℕ) (acquired : Bool) : Memory :=
  mem.setBox box {mem.box box with tokensLock := acquired}

/-- Mark a token of a box as complete. -/
def Memory.completeToken (mem : Memory) (box token : ℕ) : Memory :=
  let ipc := mem.box box
  mem.setBox box {ipc with completedTokens := ipc.completedTokens ||| token}

/-- Copy the message and update the receive descriptor and both token sets. -/
def transfer (sendBox recvBox : ℕ) (sendIo recvIo : Io) (mem : Memory) : Memory :=
  let sendDesc := mem.desc sendIo.desc
  let recvDesc := mem.desc recvIo.desc
  let copied := {mem with byte := memcpy mem.byte recvIo.msg sendIo.msg sendDesc.len}
  let sent := copied.completeToken sendBox sendDesc.token
  let described := {sent with
    desc := Function.update sent.desc recvIo.desc
      {recvDesc with boxId := sendBox, len := sendDesc.len}}
  described.completeToken recvBox recvDesc.token

/-- ipc_deliver: both token locks are needed, one when they are the same. The
status is 0 on success. -/
def ipcDeliver (sendBox recvBox : ℕ) (sendIo recvIo : Io) (mem : Memory) : ℤ × Memory :=
  let sendLock := uvisorSpinTrylock (mem.box sendBox).tokensLock
  let mem := mem.setTokensLock sendBox sendLock.2
  if sendLock.1 = false then (-1, mem)
  else
    let recvLock := uvisorSpinTrylock (mem.box recvBox).tokensLock
    if recvBox ≠ sendBox ∧ recvLock.1 = false then
      (-1, mem.setTokensLock sendBox (uvisorSpinUnlock (mem.box sendBox).tokensLock))
    else
      let mem := if recvBox ≠ sendBox then mem.setTokensLock recvBox recvLock.2 else mem
      let mem := transfer sendBox recvBox sendIo recvIo mem
      let mem := if recvBox ≠ sendBox then
          mem.setTokensLock recvBox (uvisorSpinUnlock (mem.box recvBox).tokensLock) else mem
      (0, mem.setTokensLock sendBox (uvisorSpinUnlock (mem.box sendBox).tokensLock))

/-! ## The loop -/

/-- Variables of the draining loop. -/
structure DrainState where
  /-- Memory of all boxes. -/
  mem : Memory
  /-- First slot seen, or -1. -/
  firstSlot : ℤ

/-- Enqueue a send request again; a failure cannot be handled. -/
def putSendBack (mem : Memory) (box slot : ℕ) : Memory :=
  mem.setSendQueue box (uvisorPoolQueueTryEnqueue (mem.box box).sendQueue () slot).2

/-- Enqueue a receive request again. -/
def putRecvBack (mem : Memory) (box slot : ℕ) : Memory :=
  mem.setRecvQueue box (uvisorPoolQueueTryEnqueue (mem.box box).recvQueue () slot).2

/-- Free both slots of a completed pair. -/
def freePair (sendBox sendSlot recvBox recvSlot : ℕ) (mem : Memory) : Memory :=
  let mem := mem.setSendQueue sendBox (uvisorPoolTryFree (mem.box sendBox).sendQueue sendSlot).2
  mem.setRecvQueue recvBox (uvisorPoolTryFree (mem.box recvBox).recvQueue recvSlot).2

/-- The part of the loop body after a receive request has been dequeued. Only
a delivery forgets the first slot. -/
def fulfil (sys : Platform) (sendBox sendSlot recvBox recvSlot : ℕ) (firstSlot : ℤ)
    (mem : Memory) : DrainState :=
  let sendIo := (mem.box sendBox).sendIo sendSlot
  let recvIo := (mem.box recvBox).recvIo recvSlot
  if ipcIoIsOk sys recvBox (recvIoAddress sys recvBox recvSlot) recvIo mem.desc = false then
    ⟨putSendBack mem sendBox sendSlot, firstSlot⟩
  else
    let delivery := ipcDeliver sendBox recvBox sendIo recvIo mem
    if delivery.1 ≠ 0 then
      ⟨putRecvBack (putSendBack delivery.2 sendBox sendSlot) recvBox recvSlot, firstSlot⟩
    else
      ⟨freePair sendBox sendSlot recvBox recvSlot delivery.2,
        if firstSlot = sendSlot then -1 else firstSlot⟩

/-- The part of the loop body that looks for a receive request in a known
destination box. -/
def matchReceiver (sys : Platform) (sendBox sendSlot recvBox : ℕ) (firstSlot : ℤ)
    (mem : Memory) : Flow DrainState :=
  let sendIo := (mem.box sendBox).sendIo sendSlot
  let recvQueue := (mem.box recvBox).recvQueue
  if receiverIsOk sys recvBox recvQueue = false then
    .next ⟨putSendBack mem sendBox sendSlot, firstSlot⟩
  else
    let query slot :=
      let recvIo := (mem.box recvBox).recvIo slot
      recvMatch sendBox (mem.desc sendIo.desc) (mem.desc recvIo.desc) recvIo.state
    match uvisorPoolQueueTryFindFirst recvQueue () query with
    | none => .hang
    | some found =>
      let mem := mem.setRecvQueue recvBox found.2
      if recvQueue.pool.num ≤ found.1 then .next ⟨putSendBack mem sendBox sendSlot, firstSlot⟩
      else
        let dequeued := uvisorPoolQueueTryDequeue (mem.box recvBox).recvQueue () found.1
        let mem := mem.setRecvQueue recvBox dequeued.2
        if recvQueue.pool.num ≤ dequeued.1 then
          .next ⟨putSendBack mem sendBox sendSlot, firstSlot⟩
        else .next (fulfil sys sendBox sendSlot recvBox dequeued.1 firstSlot mem)

/-- The part of the loop body after a send request has been dequeued that is
not the remembered one. The two drop paths neither put it back nor free it. -/
def offer (sys : Platform) (sendBox sendSlot : ℕ) (firstSlot : ℤ) (mem : Memory) :
    Flow DrainState :=
  let sendIo := (mem.box sendBox).sendIo sendSlot
  if ipcIoIsOk sys sendBox (sendIoAddress sys sendBox sendSlot) sendIo mem.desc = false then
    .next ⟨mem, firstSlot⟩
  else if sendIo.state ≠ .readyToSend then .next ⟨putSendBack mem sendBox sendSlot, firstSlot⟩
  else
    let recvBox := (mem.desc sendIo.desc).boxId
    if recvBox < 0 ∨ (sys.boxCount : ℤ) ≤ recvBox then .next ⟨mem, firstSlot⟩
    else matchReceiver sys sendBox sendSlot recvBox.toNat firstSlot mem

/-- One pass of the loop of ipc_drain_queue. -/
def ipcDrainBody (sys : Platform) (sendBox : ℕ) (st : DrainState) : Flow DrainState :=
  let sendQueue := (st.mem.box sendBox).sendQueue
  let dequeued := uvisorPoolQueueTryDequeueFirst sendQueue ()
  let sendSlot := dequeued.1
  let mem := st.mem.setSendQueue sendBox dequeued.2
  if sendQueue.pool.num ≤ sendSlot then .stop ⟨mem, st.firstSlot⟩
  else if st.firstSlot = -1 then offer sys sendBox sendSlot sendSlot mem
  else if (sendSlot : ℤ) = st.firstSlot then .stop ⟨putSendBack mem sendBox sendSlot, st.firstSlot⟩
  else offer sys sendBox sendSlot st.firstSlot mem

/-- Drain the send queue of the active box, with fuel for the loop. -/
def ipcDrainQueue (sys : Platform) (sendBox fuel : ℕ) (mem : Memory) : Option Memory :=
  if senderIsOk sys sendBox (mem.box sendBox).sendQueue = false then some mem
  else (iterate (ipcDrainBody sys sendBox) fuel ⟨mem, -1⟩).map DrainState.mem

/-! ## Initialization -/

/-- ipc_box_init. A refused pool halts. -/
def ipcBoxInit (sys : Platform) (box : ℕ) (ipc : BoxIpc) : Option BoxIpc :=
  let base := sys.ipc box
  let send := uvisorPoolQueueInit ipc.sendQueue () (base+12) (base+ioOffset) ioSize ipcSlots
  let recv := uvisorPoolQueueInit ipc.recvQueue () (base+recvQueueOffset+12)
    (base+recvQueueOffset+ioOffset) ioSize ipcSlots
  if send.1 ≠ 0 then none
  else if recv.1 ≠ 0 then none
  else some {ipc with
    sendQueue := send.2
    recvQueue := recv.2
    tokensLock := false
    allocatedTokens := 0
    completedTokens := 0}

end Uvisor.Ipc
