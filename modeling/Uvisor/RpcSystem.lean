import Uvisor.RpcHandlers

/-!
# Calls between all boxes of a system

Every box runs any number of calling threads and one handler thread, and the
monitor drains the queues of one box after another. Claiming a slot, counting,
filling the message in, queuing it, waiting, reading the result and freeing
the slot are separate steps, and so is every pass of the two draining loops.
A pass can find any of the locks held, by threads that were interrupted inside
a pool operation. The account of the calls is kept beside the memory and is
never read by a step.
-/

namespace Uvisor.RpcSystem

open PoolQueue Rpc RpcApi RpcHandlers Execution

/-! ## Callers -/

/-- Position of a thread in rpc_fncall_sync, rpc_fncall_async or
rpc_fncall_wait. The flag tells the synchronous call, which goes on to wait
for its own result. -/
inductive CallerPc where
  /-- Outside the calls. -/
  | idle
  /-- A slot has been claimed. -/
  | claimed (call : Call) (sync : Bool) (slot : ℕ)
  /-- The counter has been incremented. -/
  | counted (call : Call) (sync : Bool) (slot counter : ℕ)
  /-- The message has been filled in. -/
  | filled (sync : Bool) (slot : ℕ)
  /-- The slot is in the queue. -/
  | queued (sync : Bool) (slot : ℕ)
  /-- In front of the semaphore of the message. -/
  | waiting (token slot : ℕ)
  /-- Behind the semaphore. -/
  | woken (token slot : ℕ)
  /-- The result has been read. -/
  | finished (token slot value : ℕ)
  deriving DecidableEq

/-- Steps of a calling thread. -/
inductive CallerStep where
  | claim (call : Call) (sync : Bool)
  | count
  | fill
  | enqueue
  | readToken
  | wait (result : ℕ)
  | pend
  | readResult
  | free
  deriving DecidableEq

/-- One step of a calling thread. A call that gets no slot starts over or
gives up, and a wait for a token that is no longer valid returns at once. The
result is missing where the step is not the next one or blocks. -/
def callerStep (rpc : BoxRpc) : CallerPc → CallerStep → Option (BoxRpc × CallerPc)
  | .idle, .claim call sync =>
    (claimOutgoing rpc).map fun claimed =>
      if claimed.2.outgoing.queues.pool.num ≤ claimed.1 then (claimed.2, .idle)
      else (claimed.2, .claimed call sync claimed.1)
  | .claimed call sync slot, .count =>
    let counted := nextCounter rpc
    some (counted.2, .counted call sync slot counted.1)
  | .counted call sync slot counter, .fill =>
    some (populate rpc call counter slot, .filled sync slot)
  | .filled sync slot, .enqueue =>
    (enqueueOutgoing rpc slot).map fun rpc => (rpc, .queued sync slot)
  | .queued sync slot, .readToken =>
    let token := (rpc.outgoing.messages slot).matchCookie
    some (rpc, if sync then .waiting token (uvisorResultSlot token) else .idle)
  | .idle, .wait result =>
    let claimed := claimWait rpc result
    some (claimed.2, if claimed.1 then .waiting result (uvisorResultSlot result) else .idle)
  | .waiting token slot, .pend =>
    (waitForRpcResult rpc slot).map fun rpc => (rpc, .woken token slot)
  | .woken token slot, .readResult =>
    some (rpc, .finished token slot (rpc.outgoing.messages slot).result)
  | .finished _ slot _, .free => (freeOutgoingMsg rpc slot).map fun rpc => (rpc, .idle)
  | _, _ => none

section Sending

variable {rpc rpc' : BoxRpc} {call : Call} {token : ℕ} (sync : Bool)

/-- Without interruption, the first four steps of a call do what
send_outgoing_rpc does, and the next one reads the token that it returns. -/
theorem sendOutgoingRpc_steps (h : sendOutgoingRpc rpc call = some (0, token, rpc')) :
    ∃ slot, exec (fun s => callerStep s.1 s.2) [.claim call sync, .count, .fill, .enqueue]
        (rpc, .idle) = some (rpc', .queued sync slot) ∧
      (rpc'.outgoing.messages slot).matchCookie = token := by
  unfold sendOutgoingRpc at h
  obtain ⟨⟨slot, claimed⟩, hclaim, h⟩ := Option.bind_eq_some_iff.mp h
  dsimp only at h
  split at h
  · cases h
  · rename_i hnum
    obtain ⟨queued, henqueue, hend⟩ := Option.bind_eq_some_iff.mp h
    cases hend
    refine ⟨slot, ?_, rfl⟩
    rw [exec, callerStep, hclaim, Option.map_some, if_neg hnum, Option.bind_some, exec, callerStep,
      Option.bind_some, exec, callerStep, Option.bind_some, exec, callerStep, henqueue,
      Option.map_some, Option.bind_some, exec]

/-- A call for which send_outgoing_rpc finds no slot is back at its start. -/
theorem sendOutgoingRpc_full (h : sendOutgoingRpc rpc call = some (-1, token, rpc')) :
    callerStep rpc .idle (.claim call sync) = some (rpc', .idle) := by
  unfold sendOutgoingRpc at h
  obtain ⟨⟨slot, claimed⟩, hclaim, h⟩ := Option.bind_eq_some_iff.mp h
  dsimp only at h
  split at h
  · rename_i hnum
    cases h
    rw [callerStep, hclaim, Option.map_some, if_pos hnum]
  · obtain ⟨queued, henqueue, hend⟩ := Option.bind_eq_some_iff.mp h
    cases hend

end Sending
/-! ## The account of the calls -/

/-- What has become of the calls of one box. -/
structure Account where
  /-- Number of increments of the counter. -/
  sends : ℕ
  /-- Calls that were given a token. -/
  issued : ℕ → List Call
  /-- Token of the call that each outgoing slot is used for. -/
  occupant : ℕ → Option ℕ
  /-- Tokens returned by rpc_fncall_async. -/
  tokens : List ℕ
  /-- Values returned to the callers, by token. -/
  returned : ℕ → List ℕ

/-- The account after a step of a calling thread, told from where the thread
comes from and where it arrives. -/
def Account.note (account : Account) (rpc : BoxRpc) : CallerPc → CallerPc → Account
  | _, .counted call _ slot counter =>
    let token := uvisorResultBuild counter slot
    {account with
      sends := account.sends+1
      issued := Function.update account.issued token (account.issued token ++ [call])
      occupant := Function.update account.occupant slot (some token)}
  | .queued _ slot, .idle =>
    {account with tokens := (rpc.outgoing.messages slot).matchCookie :: account.tokens}
  | .finished token slot value, .idle =>
    {account with
      occupant := Function.update account.occupant slot none
      returned := Function.update account.returned token (account.returned token ++ [value])}
  | _, _ => account

/-- A call of a target function by a handler. -/
structure Execution where
  /-- Box of the handler. -/
  box : ℕ
  /-- Address of the function. -/
  target : ℕ
  /-- First argument. -/
  p0 : ℕ
  /-- Second argument. -/
  p1 : ℕ
  /-- Third argument. -/
  p2 : ℕ
  /-- Fourth argument. -/
  p3 : ℕ
  /-- Value the function returned. -/
  value : ℕ
  deriving DecidableEq

/-- Calls of target functions, by the calling box and the token of the message
they were made for. -/
abbrev Executions := ℕ → ℕ → List Execution

/-- The executions after a step of the handler of a box: the target of a
message has been called when the handler arrives behind the call. -/
def record (sys : Platform) (box : ℕ) (rpc : BoxRpc) (executions : Executions) : Pc → Executions
  | .ran slot =>
    let msg := rpc.incoming.messages slot
    let caller := msg.otherBoxId.toNat
    let execution : Execution :=
      ⟨box, (sys.gateway msg.gateway).target, msg.p0, msg.p1, msg.p2, msg.p3, msg.result⟩
    Function.update executions caller
      (Function.update (executions caller) msg.matchCookie
        (executions caller msg.matchCookie ++ [execution]))
  | _ => executions

/-- A result copied into an outgoing message. -/
structure Write where
  /-- Box of the message. -/
  box : ℕ
  /-- Slot of the message. -/
  slot : ℕ
  /-- Token of the result. -/
  token : ℕ
  /-- Token of the call that the slot was used for. -/
  occupant : Option ℕ
  /-- Whether the slot was free. -/
  free : Bool
  deriving DecidableEq

/-- The copy that the next pass of drain_result_queue makes, if it makes one. -/
def resultWrite (sys : Platform) (calleeBox : ℕ) (boxes : Boxes) (accounts : ℕ → Account) :
    Option Write :=
  let queues := (boxes calleeBox).incoming.queues
  let calleeSlot := (uvisorPoolQueueTryDequeueFirst queues .done).1
  let calleeMsg := (boxes calleeBox).incoming.messages calleeSlot
  let callerBox := calleeMsg.otherBoxId.toNat
  let callerSlot := uvisorResultSlot calleeMsg.matchCookie
  if queues.pool.num ≤ calleeSlot then none
  else if acceptsResult sys calleeBox callerBox callerSlot calleeMsg boxes then
    some ⟨callerBox, callerSlot, calleeMsg.matchCookie, (accounts callerBox).occupant callerSlot,
      decide ((boxes callerBox).outgoing.queues.pool.prev callerSlot = slotIsFree)⟩
  else none

/-! ## The monitor -/

/-- Pools whose locks are held by interrupted threads. -/
structure Locks where
  /-- Outgoing pools by box. -/
  outgoing : ℕ → Bool
  /-- Incoming pools by box. -/
  incoming : ℕ → Bool

/-- Set the lock flags of some pools to a value. -/
def Locks.set (locks : Locks) (acquired : Bool) (boxes : Boxes) : Boxes := fun b =>
  let rpc := boxes b
  {rpc with
    outgoing := ⟨if locks.outgoing b then rpc.outgoing.queues.setLock acquired
      else rpc.outgoing.queues, rpc.outgoing.messages⟩
    incoming := ⟨if locks.incoming b then rpc.incoming.queues.setLock acquired
      else rpc.incoming.queues, rpc.incoming.messages⟩}

/-- Position of the monitor. -/
inductive Monitor where
  /-- No queue is being drained. -/
  | idle
  /-- At the head of the loop of drain_message_queue. -/
  | messages (box : ℕ) (firstSlot : ℤ)
  /-- At the head of the loop of drain_result_queue. -/
  | results (box : ℕ)
  deriving DecidableEq

/-- Steps of the monitor. -/
inductive MonitorStep where
  | drainMessages (box : ℕ)
  | drainResults (box : ℕ)
  | pass (locks : Locks)

/-! ## The system -/

/-- Memory, positions of all threads, and the account of the calls. -/
structure State where
  /-- Memory of all boxes. -/
  boxes : Boxes
  /-- Positions of the calling threads, by box and thread. -/
  callers : ℕ → ℕ → CallerPc
  /-- Positions of the handlers, by box. -/
  handlers : ℕ → Pc
  /-- Position of the monitor. -/
  monitor : Monitor
  /-- Accounts of the calling boxes. -/
  accounts : ℕ → Account
  /-- Calls of target functions. -/
  executions : Executions
  /-- Results copied to the callers. -/
  writes : List Write

/-- Steps of the system. -/
inductive Action where
  | caller (box thread : ℕ) (next : CallerStep)
  | handler (box : ℕ) (next : HandlerStep)
  | monitor (next : MonitorStep)

/-- A step of a calling thread. -/
def stepCaller (s : State) (box thread : ℕ) (next : CallerStep) : Option State :=
  let pc := s.callers box thread
  (callerStep (s.boxes box) pc next).map fun out =>
    {s with
      boxes := Function.update s.boxes box out.1
      callers := Function.update s.callers box (Function.update (s.callers box) thread out.2)
      accounts := Function.update s.accounts box ((s.accounts box).note (s.boxes box) pc out.2)}

/-- A step of the handler of a box. -/
def stepHandler (sys : Platform) (s : State) (box : ℕ) (next : HandlerStep) : Option State :=
  (handlerStep sys (s.boxes box) (s.handlers box) next).map fun out =>
    {s with
      boxes := Function.update s.boxes box out.1
      handlers := Function.update s.handlers box out.2
      executions := record sys box out.1 s.executions out.2}

/-- A pass of drain_message_queue. -/
def stepMessages (sys : Platform) (s : State) (box : ℕ) (firstSlot : ℤ) (locks : Locks) :
    Option State :=
  match drainMessageBody sys box ⟨locks.set true s.boxes, firstSlot⟩ with
  | .next st => some {s with
      boxes := locks.set false st.boxes, monitor := .messages box st.firstSlot}
  | .stop st => some {s with boxes := locks.set false st.boxes, monitor := .idle}
  | .hang => none

/-- A pass of drain_result_queue. -/
def stepResults (sys : Platform) (s : State) (box : ℕ) (locks : Locks) : Option State :=
  let boxes := locks.set true s.boxes
  let writes := (resultWrite sys box boxes s.accounts).toList ++ s.writes
  match drainResultBody sys box boxes with
  | .next boxes => some {s with boxes := locks.set false boxes, writes := writes}
  | .stop boxes => some {s with
      boxes := locks.set false boxes, monitor := .idle, writes := writes}
  | .hang => none

/-- A step of the monitor. The queue of the active box is validated before its
first pass. -/
def stepMonitor (sys : Platform) (s : State) : Monitor → MonitorStep → Option State
  | .idle, .drainMessages box =>
    let queues := (s.boxes box).outgoing.queues
    if box < sys.boxCount ∧ isValidQueue sys (sys.outgoingQueue box) queues () box = true then
      some {s with monitor := .messages box (-1)}
    else none
  | .idle, .drainResults box =>
    let queues := (s.boxes box).incoming.queues
    if box < sys.boxCount ∧
        isValidQueue sys (sys.incomingQueue .done box) queues .done box = true then
      some {s with monitor := .results box}
    else none
  | .messages box firstSlot, .pass locks => stepMessages sys s box firstSlot locks
  | .results box, .pass locks => stepResults sys s box locks
  | _, _ => none

/-- One step of the system. -/
def step (sys : Platform) (s : State) : Action → Option State
  | .caller box thread next =>
    if box < sys.boxCount then stepCaller s box thread next else none
  | .handler box next => if box < sys.boxCount then stepHandler sys s box next else none
  | .monitor next => stepMonitor sys s s.monitor next

/-- An honest box waits for tokens that it got from rpc_fncall_async. -/
def Honest (s : State) : Action → Prop
  | .caller box _ (.wait result) => result ∈ (s.accounts box).tokens
  | _ => True

instance (s : State) : (a : Action) → Decidable (Honest s a)
  | .caller box _ (.wait result) =>
    inferInstanceAs (Decidable (result ∈ (s.accounts box).tokens))
  | .caller _ _ (.claim _ _) | .caller _ _ .count | .caller _ _ .fill | .caller _ _ .enqueue
  | .caller _ _ .readToken | .caller _ _ .pend | .caller _ _ .readResult | .caller _ _ .free
  | .handler _ _ | .monitor _ => inferInstanceAs (Decidable True)

/-- Account of a box that has made no call. -/
def Account.empty : Account := ⟨0, fun _ => [], fun _ => none, [], fun _ => []⟩

/-- The queues of all boxes have been initialized in cleared memory, and
nothing has happened. -/
structure Initial (sys : Platform) (s : State) : Prop where
  /-- Memory of the boxes. -/
  boxes : ∀ b < sys.boxCount, ∃ layout rpc, s.boxes b = uvisorInitializeRpcQueues layout rpc ∧
    rpc.resultCounter = 0
  /-- No thread is inside a call. -/
  callers : ∀ b t, s.callers b t = .idle
  /-- No handler is inside a call. -/
  handlers : ∀ b, s.handlers b = .idle
  /-- Nothing is being drained. -/
  monitor : s.monitor = .idle
  /-- No call has been made. -/
  accounts : ∀ b, s.accounts b = Account.empty
  /-- No target has been called. -/
  executions : ∀ b token, s.executions b token = []
  /-- No result has been copied. -/
  writes : s.writes = []

end Uvisor.RpcSystem
