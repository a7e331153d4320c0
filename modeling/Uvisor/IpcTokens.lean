import Uvisor.IpcDelivery
import Mathlib.Data.Nat.Bitwise

/-!
# Threads that post IPC requests and wait for them

Threads of all boxes call ipc_send, ipc_recv, ipc_waitforany and
ipc_waitforall, and the monitor drains send queues in between. A token is
allocated, and the tokens of finished requests are released, under the token
lock of the box; the slot of a request, its descriptor and its place in the
queue come in steps of their own. The history of each box records what has
happened to its tokens, and the requests delivered to no wait yet.
-/

namespace Uvisor.IpcTokens

open PoolQueue PoolInvariant PoolOperations Ipc IpcTermination IpcPasses IpcDelivery Execution

/-! ## Token sets -/

/-- Loop of ipc_allocate_token: shift a bit of a 32-bit word until it is not
taken. -/
def shiftBit (tokens : ℕ) : ℕ → ℕ → ℕ
  | 0, bit => bit
  | passes+1, bit =>
    if tokens &&& bit ≠ 0 then shiftBit tokens passes (bit <<< 1 % 2^32) else bit

/-- The token that ipc_allocate_token finds. After 32 shifts the bit has left
the word, which is UVISOR_IPC_INVALID_TOKEN. -/
def freeToken (tokens : ℕ) : ℕ := shiftBit tokens 32 1

/-- ipc_free_tokens: clear the given bits. -/
def ipcFreeTokens (tokens tokensToFree : ℕ) : ℕ := tokens ^^^ (tokens &&& tokensToFree)

/-- ipc_free_allocated_completed_tokens. -/
def ipcFreeAllocatedCompletedTokens (ipc : BoxIpc) (tokens : ℕ) : BoxIpc :=
  {ipc with
    allocatedTokens := ipcFreeTokens ipc.allocatedTokens tokens
    completedTokens := ipcFreeTokens ipc.completedTokens tokens}

/-- At least one of the expected tokens. -/
def any (had expected : ℕ) : Bool := had &&& expected ≠ 0

/-- At least all of the expected tokens. -/
def all (had expected : ℕ) : Bool := had &&& expected = expected

@[simp] theorem testBit_ipcFreeTokens (tokens tokensToFree i : ℕ) :
    (ipcFreeTokens tokens tokensToFree).testBit i =
      (tokens.testBit i && !tokensToFree.testBit i) := by
  rw [ipcFreeTokens, Nat.testBit_xor, Nat.testBit_and]
  cases tokens.testBit i <;> cases tokensToFree.testBit i <;> rfl

/-- A bit that is shifted ends at a free one or leaves the word. -/
theorem shiftBit_free (tokens : ℕ) {passes i : ℕ} (h : i+passes = 32) :
    shiftBit tokens passes (2^i % 2^32) = 0 ∨
      ∃ j < 32, shiftBit tokens passes (2^i % 2^32) = 2^j ∧ tokens.testBit j = false := by
  induction passes generalizing i with
  | zero =>
    obtain rfl : i = 32 := by omega
    exact Or.inl rfl
  | succ passes ih =>
    have hlt : 2^i < 2^32 := Nat.pow_lt_pow_right (by decide) (by omega)
    rw [shiftBit, Nat.mod_eq_of_lt hlt]
    split_ifs with htaken
    · have hshift : 2^i <<< 1 % 2^32 = 2^(i+1) % 2^32 := by
        rw [Nat.shiftLeft_eq, ← Nat.pow_add]
      rw [hshift]
      exact ih (by omega)
    · refine Or.inr ⟨i, by omega, rfl, ?_⟩
      rw [not_not, Nat.and_two_pow] at htaken
      cases hbit : tokens.testBit i with
      | false => rfl
      | true => simp [hbit] at htaken

/-- The token found is invalid or one bit that is not in use. -/
theorem freeToken_spec (tokens : ℕ) :
    freeToken tokens = 0 ∨ ∃ i < 32, freeToken tokens = 2^i ∧ tokens.testBit i = false :=
  shiftBit_free tokens (by decide : 0+32 = 32)

/-! ## Calls of the threads -/

/-- Arguments of ipc_send and ipc_recv. -/
structure IoCall where
  /-- Address of the descriptor. -/
  desc : ℕ
  /-- Address of the message buffer. -/
  msg : ℕ
  /-- Tells ipc_recv from ipc_send. -/
  receives : Bool

/-- Arguments of ipc_waitforany and ipc_waitforall. -/
structure WaitCall where
  /-- Tells ipc_waitforall from ipc_waitforany. -/
  all : Bool
  /-- The tokens to wait for. -/
  waitTokens : ℕ
  /-- The timeout; any non-zero one is for ever. -/
  timeoutMs : ℕ

/-- The condition of a wait. -/
def WaitCall.cond (call : WaitCall) (completed : ℕ) : Bool :=
  if call.all = true then IpcTokens.all completed call.waitTokens
  else any completed call.waitTokens

/-- Position of a thread. -/
inductive Pc where
  /-- Outside the calls. -/
  | idle
  /-- ipc_allocate_token, in front of the lock. -/
  | allocating (call : IoCall)
  /-- In front of the search for a token, with the lock. -/
  | scanning (call : IoCall)
  /-- A token has been found, with the lock. -/
  | marking (call : IoCall) (token : ℕ)
  /-- The token has been allocated, with the lock. -/
  | marked (call : IoCall) (token : ℕ)
  /-- ipc_io, in front of the allocation of a slot. -/
  | claiming (call : IoCall) (token : ℕ)
  /-- In front of the write of the token to the descriptor. -/
  | naming (call : IoCall) (token slot : ℕ)
  /-- In front of the writes to the request. -/
  | filling (call : IoCall) (slot : ℕ)
  /-- In front of the enqueue. -/
  | posting (call : IoCall) (slot : ℕ)
  /-- ipc_waitfor, in front of the lock. -/
  | waiting (call : WaitCall)
  /-- In front of the read of the completed tokens, with the lock. -/
  | reading (call : WaitCall)
  /-- The condition is met, with the lock. -/
  | freeing (call : WaitCall) (completed : ℕ)
  /-- In front of the release of the lock. -/
  | leaving (call : WaitCall) (completed : ℕ) (met : Bool)

/-- What happens to a token. -/
inductive Event where
  /-- A thread has allocated it. -/
  | allocated (token : ℕ)
  /-- The request that carries it has been delivered. -/
  | completed (token : ℕ)
  /-- A successful wait has returned these tokens. -/
  | reported (doneTokens : ℕ)

/-- State of the system. -/
structure State where
  /-- Memory of all boxes. -/
  mem : Memory
  /-- Positions of the threads. -/
  pc : ℕ → Pc
  /-- Descriptors of the delivered requests of each box that no wait has
  returned. -/
  delivered : ℕ → List ℕ
  /-- History of the tokens of each box, last event first. -/
  log : ℕ → List Event

/-- Steps of the system. -/
inductive Action where
  /-- A thread calls ipc_send or ipc_recv. -/
  | io (thread : ℕ) (call : IoCall)
  /-- A thread calls ipc_waitforany or ipc_waitforall. -/
  | wait (thread : ℕ) (call : WaitCall)
  /-- A thread goes on with its call. -/
  | run (thread : ℕ)
  /-- The monitor makes a pass of the drain of a box. -/
  | pass (box : ℕ) (firstSlot : ℤ)
  /-- A box writes a descriptor. -/
  | describe (address : ℕ) (desc : Desc)
  /-- A box writes to a buffer. -/
  | write (address : ℕ) (value : UInt8)
  /-- The lock of a pool is taken or released by another operation. -/
  | lockPool (box : ℕ) (receives acquired : Bool)

/-! ## Steps -/

/-- The send or the receive queue. -/
def queueOf (ipc : BoxIpc) (receives : Bool) : PoolQueues Unit :=
  if receives = true then ipc.recvQueue else ipc.sendQueue

/-- Replace the send or the receive queue structures of a box. -/
def setQueue (mem : Memory) (box : ℕ) (receives : Bool) (queues : PoolQueues Unit) : Memory :=
  if receives = true then mem.setRecvQueue box queues else mem.setSendQueue box queues

/-- Write an entry of the send or the receive array of a box. -/
def setIo (mem : Memory) (box : ℕ) (receives : Bool) (slot : ℕ) (io : Io) : Memory :=
  let ipc := mem.box box
  if receives = true then
    mem.setBox box {ipc with recvIo := Function.update ipc.recvIo slot io}
  else mem.setBox box {ipc with sendIo := Function.update ipc.sendIo slot io}

/-- Replace the token of a descriptor. -/
def setToken (mem : Memory) (address token : ℕ) : Memory :=
  {mem with desc := Function.update mem.desc address {mem.desc address with token := token}}

/-- A thread goes on, with new memory. -/
def State.goto (st : State) (thread : ℕ) (pc : Pc) (mem : Memory) : State :=
  {st with pc := Function.update st.pc thread pc, mem := mem}

/-- Add an event to the history of a box. -/
def State.record (st : State) (box : ℕ) (event : Event) : State :=
  {st with log := Function.update st.log box (event :: st.log box)}

/-- A wait returns: its tokens are reported, and the requests that carry them
are no longer outstanding. -/
def State.report (st : State) (box doneTokens : ℕ) : State :=
  {st.record box (.reported doneTokens) with
    delivered := Function.update st.delivered box
      ((st.delivered box).filter fun address =>
        (st.mem.desc address).token &&& doneTokens = 0)}

/-- The next step of a thread in a call. The lock is spun for; the tokens are
read and written with the lock; done_tokens is memory of the caller and goes
with the release. -/
def threadStep (box : ℕ) (st : State) (thread : ℕ) : Option State :=
  let ipc := st.mem.box box
  let unlocked := st.mem.setTokensLock box (uvisorSpinUnlock ipc.tokensLock)
  match st.pc thread with
  | .idle => none
  | .allocating call =>
    (uvisorSpinLock ipc.tokensLock).map fun lock =>
      st.goto thread (.scanning call) (st.mem.setTokensLock box lock)
  | .scanning call => some (st.goto thread (.marking call (freeToken ipc.allocatedTokens)) st.mem)
  | .marking call token =>
    let marked := {ipc with allocatedTokens := ipc.allocatedTokens ||| token}
    some ((st.goto thread (.marked call token) (st.mem.setBox box marked)).record box
      (.allocated token))
  | .marked call token =>
    some (st.goto thread (if token = 0 then .idle else .claiming call token) unlocked)
  | .claiming call token =>
    (uvisorPoolAllocate (queueOf ipc call.receives)).map fun out =>
      st.goto thread (if out.2.pool.num ≤ out.1 then .idle else .naming call token out.1)
        (setQueue st.mem box call.receives out.2)
  | .naming call token slot =>
    some (st.goto thread (.filling call slot) (setToken st.mem call.desc token))
  | .filling call slot =>
    let state := if call.receives = true then .readyToRecv else .readyToSend
    some (st.goto thread (.posting call slot)
      (setIo st.mem box call.receives slot ⟨call.desc, call.msg, state⟩))
  | .posting call slot =>
    (uvisorPoolQueueEnqueue (queueOf ipc call.receives) () slot).map fun queues =>
      st.goto thread .idle (setQueue st.mem box call.receives queues)
  | .waiting call =>
    (uvisorSpinLock ipc.tokensLock).map fun lock =>
      st.goto thread (.reading call) (st.mem.setTokensLock box lock)
  | .reading call =>
    let completed := ipc.completedTokens &&& call.waitTokens
    some (st.goto thread
      (if call.cond completed = true then .freeing call completed
        else .leaving call completed false) st.mem)
  | .freeing call completed =>
    some (st.goto thread (.leaving call completed true)
      (st.mem.setBox box (ipcFreeAllocatedCompletedTokens ipc completed)))
  | .leaving call completed met =>
    if met = true then some ((st.goto thread .idle unlocked).report box completed)
    else some (st.goto thread (if call.timeoutMs = 0 then .idle else .waiting call) unlocked)

/-- Slots of a queue that a pass has freed. Only a delivery frees slots. -/
def freed (before after : PoolQueues Unit) : List ℕ :=
  (queueSlots before ()).filter fun slot => after.pool.prev slot = slotIsFree

/-- Descriptors of the requests of a box that a pass has delivered. -/
def deliveredNow (mem mem' : Memory) (box : ℕ) : List ℕ :=
  ((freed (mem.box box).sendQueue (mem'.box box).sendQueue).map fun slot =>
      ((mem.box box).sendIo slot).desc) ++
    (freed (mem.box box).recvQueue (mem'.box box).recvQueue).map fun slot =>
      ((mem.box box).recvIo slot).desc

/-- A pass has changed the memory: what it delivered is on record. -/
def State.passed (st : State) (mem' : Memory) : State where
  mem := mem'
  pc := st.pc
  delivered box := deliveredNow st.mem mem' box ++ st.delivered box
  log box := ((deliveredNow st.mem mem' box).map fun address =>
    .completed (st.mem.desc address).token) ++ st.log box

/-- A pass of the drain of a box. -/
def passStep (sys : Platform) (box : ℕ) (firstSlot : ℤ) (st : State) : Option State :=
  if box < sys.boxCount then
    match ipcDrainBody sys box ⟨st.mem, firstSlot⟩ with
    | .next out | .stop out => some (st.passed out.mem)
    | .hang => none
  else none

/-- One step of the system, given the box of each thread. -/
def step (sys : Platform) (owner : ℕ → ℕ) (st : State) : Action → Option State
  | .io thread call =>
    match st.pc thread with
    | .idle => some (st.goto thread (.allocating call) st.mem)
    | _ => none
  | .wait thread call =>
    match st.pc thread with
    | .idle => some (st.goto thread (.waiting call) st.mem)
    | _ => none
  | .run thread => threadStep (owner thread) st thread
  | .pass box firstSlot => passStep sys box firstSlot st
  | .describe address desc =>
    some {st with mem := {st.mem with desc := Function.update st.mem.desc address desc}}
  | .write address value =>
    some {st with mem := {st.mem with byte := Function.update st.mem.byte address value}}
  | .lockPool box receives acquired =>
    some {st with
      mem := setQueue st.mem box receives ((queueOf (st.mem.box box) receives).setLock acquired)}

/-- All boxes have just been initialized, and no thread is in a call. -/
structure Initial (sys : Platform) (st : State) : Prop where
  /-- The IPC state of each box is fresh. -/
  box : ∀ b < sys.boxCount, ∃ ipc, ipcBoxInit sys b ipc = some (st.mem.box b)
  /-- All threads are outside. -/
  pc : ∀ thread, st.pc thread = .idle
  /-- Nothing is delivered. -/
  delivered : ∀ b, st.delivered b = []
  /-- Nothing has happened. -/
  log : ∀ b, st.log b = []

end Uvisor.IpcTokens
