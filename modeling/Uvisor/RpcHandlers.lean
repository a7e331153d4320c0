import Uvisor.RpcLibrary
import Uvisor.RpcDrain

/-!
# Handler threads of one box

Any number of threads of a box run rpc_fncall_waitfor, while the monitor
delivers messages into the todo queue and collects finished ones from the
done queue. Finding a message, dequeuing it, calling its target and putting
it into the done queue are separate steps. The dequeue recognizes a message
that another thread has taken by the state byte of its slot, which is a link
again once the message is in the done queue.
-/

namespace Uvisor.RpcHandlers

open PoolQueue PoolInvariant PoolOperations Rpc RpcApi RpcDescription RpcLibrary RpcDrain Execution

/-! ## The threads -/

/-- Position of a thread in rpc_fncall_waitfor. The flag tells the check on
behalf of a new function group from the one after a wake-up. -/
inductive Pc where
  /-- Outside the call. -/
  | idle
  /-- The function group has not been found. -/
  | creating (fnPtrArray fnCount : ℕ)
  /-- The function group is filled in and not yet queued. -/
  | publishing (group : ℕ)
  /-- In front of the semaphore of the group. -/
  | pending (group : ℕ)
  /-- In front of the search for a message. -/
  | searching (group : ℕ) (first : Bool)
  /-- A message has been found. -/
  | found (group slot : ℕ) (first : Bool)
  /-- A message has been dequeued. -/
  | holding (group slot : ℕ) (first : Bool)
  /-- The target has been called. -/
  | ran (slot : ℕ)
  deriving DecidableEq

/-- Steps of a thread. Calling the target function returns any value. -/
inductive HandlerStep where
  | lookup (fnPtrArray fnCount : ℕ)
  | claim
  | publish
  | pend
  | timeout
  | find
  | dequeue
  | dispatch (value : ℕ)
  | finish

/-- Where handle_incoming_rpc returns to when it has handled nothing. -/
def unhandled (group : ℕ) (first : Bool) : Pc := if first then .pending group else .idle

/-- One step of a thread. The result is missing where the step is not the next
one or blocks. -/
def handlerStep (sys : Platform) (rpc : BoxRpc) : Pc → HandlerStep → Option (BoxRpc × Pc)
  | .idle, .lookup fnPtrArray fnCount =>
    match getFunctionGroup rpc fnPtrArray with
    | some group => some (rpc, .pending group)
    | none => some (rpc, .creating fnPtrArray fnCount)
  | .creating fnPtrArray fnCount, .claim =>
    (claimFunctionGroup rpc fnPtrArray fnCount).map fun claimed =>
      (claimed.2, claimed.1.elim .idle .publishing)
  | .publishing group, .publish =>
    (enqueueFunctionGroup rpc group).map fun rpc => (rpc, .searching group true)
  | .pending group, .pend =>
    (pendFnGroup rpc group).map fun rpc => (rpc, .searching group false)
  | .pending _, .timeout => some (rpc, .idle)
  | .searching group first, .find =>
    (findIncoming sys rpc (rpc.fnGroups.fnGroups group)).map fun out =>
      if out.2.incoming.queues.pool.num ≤ out.1 then (out.2, unhandled group first)
      else (out.2, .found group out.1 first)
  | .found group slot first, .dequeue =>
    (dequeueIncoming rpc slot).map fun out =>
      if out.2.incoming.queues.pool.num ≤ out.1 then (out.2, unhandled group first)
      else (out.2, .holding group out.1 first)
  | .holding group slot first, .dispatch value =>
    if hasGatewayMagic sys (rpc.incoming.messages slot) then
      some (storeResult rpc slot value, .ran slot)
    else some (rpc, unhandled group first)
  | .ran slot, .finish => (enqueueDone rpc slot).map fun rpc => (rpc, .idle)
  | _, _ => none

/-! ## The monitor's side -/

/-- The callee's part of a pass of drain_message_queue: the slot of a delivered
message, if there was room. -/
def deliverTo (sys : Platform) (rpc : BoxRpc) (callerMsg : Message) (callerBox : ℕ) :
    Option (Option ℕ × BoxRpc) :=
  let allocated := uvisorPoolTryAllocate rpc.incoming.queues
  if allocated.1 < rpc.incoming.queues.pool.num then
    let old := rpc.incoming.messages allocated.1
    let enqueued := uvisorPoolQueueTryEnqueue allocated.2 .todo allocated.1
    let rpc := writeIncoming (withIncoming rpc enqueued.2) allocated.1
      (calleeCopy old callerMsg callerBox)
    if enqueued.1 ≠ 0 then some (none, rpc)
    else
      let target := (sys.gateway callerMsg.gateway).target
      (wakeUpHandlersForTarget sys target rpc.fnGroups).map fun woken =>
        (some allocated.1, {rpc with fnGroups := woken.1})
  else some (none, withIncoming rpc allocated.2)

/-- The callee's part of a pass of drain_result_queue. A result that the
caller does not accept leaves its slot dequeued. -/
def collectFrom (rpc : BoxRpc) (accepted : Bool) : BoxRpc :=
  let dequeued := uvisorPoolQueueTryDequeueFirst rpc.incoming.queues .done
  let rpc' := withIncoming rpc dequeued.2
  if rpc.incoming.queues.pool.num ≤ dequeued.1 then rpc'
  else if accepted then
    let msg := rpc'.incoming.messages dequeued.1
    let rpc' := writeIncoming rpc' dequeued.1 {msg with state := .idle}
    withIncoming rpc' (uvisorPoolTryFree rpc'.incoming.queues dequeued.1).2
  else rpc'

/-! ## The box -/

/-- A box, its threads, and what has happened to the delivered messages. -/
structure State where
  /-- Memory of the box. -/
  rpc : BoxRpc
  /-- Position of every thread. -/
  pc : ℕ → Pc
  /-- Number of deliveries so far. -/
  delivered : ℕ
  /-- Delivery that filled each slot. -/
  label : ℕ → ℕ
  /-- How often the target was called for each delivery. -/
  executed : ℕ → ℕ
  /-- How often each delivery was put into the done queue. -/
  finished : ℕ → ℕ

/-- Steps of the threads and of the monitor. -/
inductive Action where
  | handler (thread : ℕ) (next : HandlerStep)
  | deliver (msg : Message) (callerBox : ℕ)
  | collect (accepted : Bool)

/-- Count one more for a delivery. -/
def tally (count : ℕ → ℕ) (n : ℕ) : ℕ → ℕ := Function.update count n (count n+1)

/-- Count one more for the delivery of a message whose target has been called. -/
def tallyRan (count label : ℕ → ℕ) : Pc → ℕ → ℕ
  | .ran slot => tally count (label slot)
  | _ => count

theorem tallyRan_of_ne {count label : ℕ → ℕ} {pc : Pc} (h : ∀ slot, pc ≠ .ran slot) :
    tallyRan count label pc = count := by
  cases pc with
  | ran slot => exact absurd rfl (h slot)
  | _ => rfl

/-- One step of the box. A message is executed when its thread arrives behind
the call, and finished when its thread leaves from there. -/
def step (sys : Platform) (s : State) : Action → Option State
  | .handler i next =>
    (handlerStep sys s.rpc (s.pc i) next).map fun out =>
      {s with
        rpc := out.1, pc := Function.update s.pc i out.2,
        executed := tallyRan s.executed s.label out.2,
        finished := tallyRan s.finished s.label (s.pc i)}
  | .deliver msg callerBox =>
    (deliverTo sys s.rpc msg callerBox).map fun out =>
      match out.1 with
      | none => {s with rpc := out.2}
      | some slot =>
        {s with
          rpc := out.2, delivered := s.delivered+1, label := Function.update s.label slot s.delivered}
  | .collect accepted => some {s with rpc := collectFrom s.rpc accepted}

/-- The box has been initialized and nothing has happened. -/
def Initial (s : State) : Prop :=
  (∃ layout rpc, s.rpc = uvisorInitializeRpcQueues layout rpc) ∧ (∀ i, s.pc i = .idle) ∧
    s.delivered = 0 ∧ (∀ n, s.executed n = 0) ∧ ∀ n, s.finished n = 0

/-! ## Outcomes of a step of a thread -/

/-- The message a thread has dequeued and not yet put into the done queue. -/
def Pc.taken : Pc → Option ℕ
  | .holding _ slot _ => some slot
  | .ran slot => some slot
  | _ => none

@[simp] theorem unhandled_taken (group : ℕ) (first : Bool) : (unhandled group first).taken = none := by
  cases first <;> rfl

theorem unhandled_ne_found (group : ℕ) (first : Bool) (g slot : ℕ) (f : Bool) :
    unhandled group first ≠ .found g slot f := by
  cases first <;> simp [unhandled]

/-- What a step of a thread can do to the incoming messages, and the lists that
describe them then. -/
inductive Outcome (rpc : BoxRpc) (free : List ℕ) (lists : IncomingName → List ℕ) :
    Pc → BoxRpc → Pc → (IncomingName → List ℕ) → Prop where
  /-- The incoming messages are not written. -/
  | quiet {pc pc' : Pc} {rpc' : BoxRpc} (hin : rpc'.incoming = rpc.incoming)
      (hpc : ∀ slot, pc ≠ .ran slot) (htaken : pc'.taken = none)
      (hfound : ∀ group slot first, pc' = .found group slot first → slot ∈ lists .todo) :
      Outcome rpc free lists pc rpc' pc' lists
  /-- A message leaves the todo queue. -/
  | took {group slot : ℕ} {first : Bool} {queues : PoolQueues IncomingName}
      (hmem : slot ∈ lists .todo)
      (hr : Represents queues free (Function.update lists .todo ((lists .todo).erase slot)))
      (hl : queues.pool.spinlock = false) (hh : header queues = header rpc.incoming.queues) :
      Outcome rpc free lists (.found group slot first) (withIncoming rpc queues)
        (.holding group slot first) (Function.update lists .todo ((lists .todo).erase slot))
  /-- The target of a message is called. -/
  | called {group slot : ℕ} {first : Bool} (value : ℕ) :
      Outcome rpc free lists (.holding group slot first) (storeResult rpc slot value) (.ran slot)
        lists
  /-- A message enters the done queue. -/
  | put {slot : ℕ} {queues : PoolQueues IncomingName}
      (hr : Represents queues free (Function.update lists .done (lists .done ++ [slot])))
      (hl : queues.pool.spinlock = false) (hh : header queues = header rpc.incoming.queues) :
      Outcome rpc free lists (.ran slot) (withIncoming rpc queues) .idle
        (Function.update lists .done (lists .done ++ [slot]))

/-- Steps on the function groups do not touch the incoming messages. -/
theorem claimFunctionGroup_incoming {rpc : BoxRpc} {fnPtrArray fnCount : ℕ}
    {claimed : Option ℕ × BoxRpc} (h : claimFunctionGroup rpc fnPtrArray fnCount = some claimed) :
    claimed.2.incoming = rpc.incoming := by
  simp only [claimFunctionGroup, Option.map_eq_some_iff] at h
  obtain ⟨out, -, rfl⟩ := h
  split <;> rfl

/-- A thread that has found a message dequeues it next. -/
theorem handlerStep_found {sys : Platform} {rpc : BoxRpc} {group slot : ℕ} {first : Bool}
    {next : HandlerStep} {out : BoxRpc × Pc}
    (h : handlerStep sys rpc (.found group slot first) next = some out) : next = .dequeue := by
  cases next with
  | dequeue => rfl
  | _ => cases h

/-- A thread whose message has not left for the done queue under its hands has
one of four outcomes. -/
theorem handlerStep_outcome {sys : Platform} {rpc rpc' : BoxRpc} {pc pc' : Pc}
    {next : HandlerStep} {free : List ℕ} {lists : IncomingName → List ℕ}
    (h : Represents rpc.incoming.queues free lists)
    (hl : rpc.incoming.queues.pool.spinlock = false)
    (hfound : ∀ group slot first, pc = .found group slot first →
      slot < rpc.incoming.queues.pool.num ∧ slot ∉ lists .done)
    (hran : ∀ slot, pc = .ran slot → Held rpc.incoming.queues free lists slot)
    (hs : handlerStep sys rpc pc next = some (rpc', pc')) :
    ∃ lists', Outcome rpc free lists pc rpc' pc' lists' := by
  unfold handlerStep at hs
  split at hs
  · split at hs
    · cases hs
      exact ⟨_, .quiet rfl (by simp) rfl (by simp)⟩
    · cases hs
      exact ⟨_, .quiet rfl (by simp) rfl (by simp)⟩
  · obtain ⟨claimed, hc, he⟩ := Option.map_eq_some_iff.mp hs
    cases he
    refine ⟨_, .quiet (claimFunctionGroup_incoming hc) (by simp) ?_ ?_⟩
    · cases claimed.1 <;> rfl
    · cases claimed.1 <;> simp
  · obtain ⟨out, hp, he⟩ := Option.map_eq_some_iff.mp hs
    cases he
    obtain ⟨queues, -, rfl⟩ := Option.map_eq_some_iff.mp hp
    exact ⟨_, .quiet rfl (by simp) rfl (by simp)⟩
  · obtain ⟨out, hp, he⟩ := Option.map_eq_some_iff.mp hs
    cases he
    obtain ⟨count, -, rfl⟩ := Option.map_eq_some_iff.mp hp
    exact ⟨_, .quiet rfl (by simp) rfl (by simp)⟩
  · cases hs
    exact ⟨_, .quiet rfl (by simp) rfl (by simp)⟩
  · rename_i group first
    rw [findIncoming_eq sys _ h hl, Option.map_some] at hs
    dsimp only at hs
    split at hs
    · cases hs
      exact ⟨_, .quiet rfl (by simp) (by simp) fun g slot f he =>
        absurd he (unhandled_ne_found group first g slot f)⟩
    · rename_i hlt
      cases hs
      refine ⟨_, .quiet rfl (by simp) rfl fun g slot f he => ?_⟩
      cases he
      cases hfind : (lists .todo).find? fun slot =>
          queryForFnGroup sys (rpc.fnGroups.fnGroups group) (rpc.incoming.messages slot) with
      | none =>
        rw [hfind] at hlt
        have hnum := h.num_lt
        simp only [poolMaxValid, slotInvalid, Option.getD_none] at hlt hnum
        omega
      | some slot =>
        rw [Option.getD_some]
        exact List.mem_of_find?_eq_some hfind
  · rename_i group slot first
    obtain ⟨hlt, hdone⟩ := hfound group slot first rfl
    by_cases htodo : slot ∈ lists .todo
    · obtain ⟨queues, hd, hr, hlock, hh⟩ := dequeueIncoming_mem h hl htodo
      rw [hd, Option.map_some] at hs
      dsimp only at hs
      have hnum : (withIncoming rpc queues).incoming.queues.pool.num =
        rpc.incoming.queues.pool.num := num_of_header .todo hh
      rw [hnum, if_neg (Nat.not_le.mpr hlt)] at hs
      cases hs
      exact ⟨_, .took htodo hr hlock hh⟩
    · have hnone : ∀ i, slot ∉ lists i := by
        intro i
        cases i with
        | todo => exact htodo
        | done => exact hdone
      obtain ⟨status, hd, hstatus⟩ := dequeueIncoming_not_queued h hl hlt hnone
      rw [hd, Option.map_some] at hs
      dsimp only at hs
      rw [if_pos hstatus] at hs
      cases hs
      exact ⟨_, .quiet rfl (by simp) (by simp) fun g slot f he =>
        absurd he (unhandled_ne_found group first g slot f)⟩
  · rename_i group slot first value
    split at hs
    · cases hs
      exact ⟨_, .called value⟩
    · cases hs
      exact ⟨_, .quiet rfl (by simp) (by simp) fun g slot f he =>
        absurd he (unhandled_ne_found group first g slot f)⟩
  · rename_i slot
    obtain ⟨queues, hd, hr, hlock, hh⟩ := enqueueDone_held h hl (hran slot rfl)
    rw [hd, Option.map_some] at hs
    cases hs
    exact ⟨_, .put hr hlock hh⟩
  · cases hs

/-! ## Outcomes of the monitor's steps -/

section Monitor

variable {sys : Platform} {rpc : BoxRpc} {free : List ℕ} {lists : IncomingName → List ℕ}

/-- Writing back the incoming structures changes nothing. -/
theorem withIncoming_self (rpc : BoxRpc) : withIncoming rpc rpc.incoming.queues = rpc := rfl

/-- A full box is left alone. -/
theorem deliverTo_nil (h : Represents rpc.incoming.queues [] lists)
    (hl : rpc.incoming.queues.pool.spinlock = false) (msg : Message) (callerBox : ℕ) :
    deliverTo sys rpc msg callerBox = some (none, rpc) := by
  have hnum := h.num_lt
  have hfull : ¬slotInvalid < rpc.incoming.queues.pool.num := by
    simp only [poolMaxValid, slotInvalid] at *
    omega
  unfold deliverTo
  dsimp only
  rw [tryAllocate_nil h hl, if_neg hfull, withIncoming_self]

/-- A delivered message is at the end of the todo queue, in a slot that was
free. -/
theorem deliverTo_cons {slot : ℕ} {msg : Message} {callerBox : ℕ} {out : Option ℕ × BoxRpc}
    (h : Represents rpc.incoming.queues (slot :: free) lists)
    (hl : rpc.incoming.queues.pool.spinlock = false)
    (hs : deliverTo sys rpc msg callerBox = some out) :
    ∃ queues groups, out.1 = some slot ∧
      out.2 = {writeIncoming (withIncoming rpc queues) slot
        (calleeCopy (rpc.incoming.messages slot) msg callerBox) with fnGroups := groups} ∧
      Represents queues free (Function.update lists .todo (lists .todo ++ [slot])) ∧
      queues.pool.spinlock = false ∧ header queues = header rpc.incoming.queues ∧
      (wakeUpHandlersForTarget sys (sys.gateway msg.gateway).target rpc.fnGroups).map Prod.fst =
        some groups := by
  obtain ⟨hslot, hr, hheld⟩ := tryAllocate_cons h hl
  unfold deliverTo at hs
  dsimp only at hs
  generalize hal : uvisorPoolTryAllocate rpc.incoming.queues = allocated at *
  have hheader : header allocated.2 = header rpc.incoming.queues := by
    rw [← hal, header_uvisorPoolTryAllocate]
  have hlock : allocated.2.pool.spinlock = false := by
    rw [← hal, uvisorPoolTryAllocate_spinlock, hl]
  have hbound : allocated.1 < rpc.incoming.queues.pool.num := by
    rw [hslot]
    exact h.free_lt slot (by simp)
  obtain ⟨hstatus, henq⟩ := tryEnqueue_held hr hlock .todo hheld
  rw [if_pos hbound, hslot, if_neg (not_not.mpr hstatus)] at hs
  obtain ⟨woken, hw, rfl⟩ := Option.map_eq_some_iff.mp hs
  refine ⟨_, woken.1, rfl, rfl, henq, ?_, ?_, ?_⟩
  · rw [uvisorPoolQueueTryEnqueue_spinlock, hlock]
  · rw [header_uvisorPoolQueueTryEnqueue, hheader]
  · change wakeUpHandlersForTarget sys _ rpc.fnGroups = _ at hw
    rw [hw, Option.map_some]

/-- With an empty done queue there is nothing to collect. -/
theorem collectFrom_nil (h : Represents rpc.incoming.queues free lists)
    (hl : rpc.incoming.queues.pool.spinlock = false) (hq : lists .done = []) (accepted : Bool) :
    collectFrom rpc accepted = rpc := by
  have hnum := h.num_lt
  have hempty := tryDequeueFirst_nil h hl hq
  have hend : rpc.incoming.queues.pool.num ≤ slotInvalid := by
    simp only [poolMaxValid, slotInvalid] at *
    omega
  unfold collectFrom
  dsimp only
  rw [hempty, if_pos hend, withIncoming_self]

/-- The first finished message leaves the done queue, and its slot becomes free
when the result is accepted. -/
theorem collectFrom_cons {slot : ℕ} {l : List ℕ} (h : Represents rpc.incoming.queues free lists)
    (hl : rpc.incoming.queues.pool.spinlock = false) (hq : lists .done = slot :: l)
    (accepted : Bool) :
    Represents (collectFrom rpc accepted).incoming.queues
        (if accepted then slot :: free else free) (Function.update lists .done l) ∧
      (collectFrom rpc accepted).incoming.queues.pool.spinlock = false ∧
      header (collectFrom rpc accepted).incoming.queues = header rpc.incoming.queues := by
  obtain ⟨hslot, hr, hheld⟩ := tryDequeueFirst_cons h hl hq
  have hlock : (uvisorPoolQueueTryDequeueFirst rpc.incoming.queues .done).2.pool.spinlock =
      false := by
    rw [uvisorPoolQueueTryDequeueFirst_spinlock, hl]
  have hbound : ¬rpc.incoming.queues.pool.num ≤ slot :=
    Nat.not_le.mpr (h.lists_lt .done slot (by simp [hq]))
  unfold collectFrom
  dsimp only
  rw [hslot, if_neg hbound]
  cases accepted with
  | true =>
    obtain ⟨-, hfree⟩ := tryFree_held hr hlock hheld
    rw [if_pos rfl, if_pos rfl]
    refine ⟨hfree, ?_, ?_⟩
    · exact (uvisorPoolTryFree_spinlock _ slot).trans hlock
    · exact (header_uvisorPoolTryFree _ slot).trans
        (header_uvisorPoolQueueTryDequeueFirst _ _)
  | false =>
    rw [if_neg Bool.false_ne_true, if_neg Bool.false_ne_true]
    exact ⟨hr, hlock, header_uvisorPoolQueueTryDequeueFirst _ _⟩

/-- Collecting does not touch the function groups. -/
theorem collectFrom_fnGroups (rpc : BoxRpc) (accepted : Bool) :
    (collectFrom rpc accepted).fnGroups = rpc.fnGroups := by
  unfold collectFrom
  dsimp only
  split
  · rfl
  · split <;> rfl

/-- Collecting keeps the gateways of all messages. -/
theorem collectFrom_gateway (rpc : BoxRpc) (accepted : Bool) (slot : ℕ) :
    ((collectFrom rpc accepted).incoming.messages slot).gateway =
      (rpc.incoming.messages slot).gateway := by
  unfold collectFrom
  dsimp only
  split
  · rfl
  · split
    · simp only [withIncoming, writeIncoming]
      by_cases hs : slot = (uvisorPoolQueueTryDequeueFirst rpc.incoming.queues .done).1
      · subst hs
        rw [Function.update_self]
      · rw [Function.update_of_ne hs]
    · rfl

/-- A pass of the drain that finds a free slot does to its callee what the
callee's part says. -/
theorem forward_deliverTo {boxes : Boxes} {d : ℕ → BoxLists} {caller slot callee fresh : ℕ}
    {firstSlot : ℤ} (h : Describes sys boxes d)
    (hdest : destination sys boxes caller slot = some callee)
    (hfree : (d callee).inFree = fresh :: free) :
    ∃ boxes' rpc', forward sys caller slot firstSlot boxes = .next ⟨boxes', firstSlot⟩ ∧
      deliverTo sys (boxes callee) ((boxes caller).outgoing.messages slot) caller =
        some (some fresh, rpc') ∧
      (boxes' callee).incoming.queues = rpc'.incoming.queues ∧
      (∀ s, (boxes' callee).incoming.messages s = rpc'.incoming.messages s) ∧
      (boxes' callee).fnGroups = rpc'.fnGroups := by
  have hd := h callee (destination_callee hdest).2
  have hin := hd.incoming
  rw [hfree] at hin
  obtain ⟨hfresh, hrepr, hheld⟩ := tryAllocate_cons hin hd.incoming_lock
  obtain ⟨woken, hwake, -⟩ := wakeUpHandlersForTarget_some sys
    (sys.gateway ((boxes caller).outgoing.messages slot).gateway).target hd.fnGroups
  rw [forward_some hdest, deliverTo]
  dsimp only
  generalize hal : uvisorPoolTryAllocate (boxes callee).incoming.queues = allocated at *
  have hlock : allocated.2.pool.spinlock = false := by
    rw [← hal, uvisorPoolTryAllocate_spinlock, hd.incoming_lock]
  have hbound : allocated.1 < (boxes callee).incoming.queues.pool.num := by
    rw [hfresh]
    exact hin.free_lt fresh (by simp)
  obtain ⟨hstatus, -⟩ := tryEnqueue_held hrepr hlock .todo hheld
  rw [if_pos hbound, if_pos hbound, hfresh, if_neg (not_not.mpr hstatus)]
  unfold deliver
  simp only [setIncoming_outgoing, setIncoming_messages, setOutgoingMessage_incoming,
    setIncomingMessage_queues, setIncoming_queues, if_true, hstatus, ne_eq, not_true_eq_false,
    if_false, setIncoming_fnGroups, setOutgoingMessage_fnGroups, setIncomingMessage_fnGroups]
  rw [hwake]
  change ∃ boxes' rpc', _ ∧ (wakeUpHandlersForTarget sys _ (boxes callee).fnGroups).map _ = _ ∧ _
  rw [hwake]
  refine ⟨_, _, rfl, rfl, by simp [writeIncoming, withIncoming], fun s => ?_, by simp⟩
  by_cases hs : s = fresh <;> simp [writeIncoming, withIncoming, hs]

end Monitor

end Uvisor.RpcHandlers
