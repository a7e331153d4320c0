import Uvisor.RpcPasses
import Uvisor.RpcFootprint
import Uvisor.RpcHonestCaller

/-!
# An honest caller among malicious boxes

One box uses the library; the memory of all other boxes, and the handling side
of this box, can change in any way between two passes of the monitor. A pass
that writes through a stray link or array leaves the outgoing messages of the
honest box unknown. Any other pass keeps the outgoing queue of the honest box
well formed, whatever the other boxes hold.
-/

namespace Uvisor.RpcMaliciousBoxes

open PoolQueue PoolInvariant PoolOperations Rpc RpcApi RpcDescription RpcDrain RpcSystem
  RpcPasses RpcFootprint RpcHonestCaller Execution

/-! ## Where the pass over outgoing messages writes -/

/-- What becomes of the first outgoing message in a pass of
drain_message_queue. -/
inductive Handling where
  /-- The queue is empty or busy. -/
  | nothing
  /-- It has been seen before, and is put back. -/
  | cameRound (slot : ℕ)
  /-- Its gateway or the callee's queue is not valid. -/
  | dropped (slot : ℕ)
  /-- The callee has no room or is busy, and it is put back. -/
  | refused (slot callee : ℕ)
  /-- It is copied into a slot of the callee. -/
  | delivered (slot callee fresh : ℕ)
  deriving DecidableEq

section Places

variable (sys : Platform) (caller : ℕ) (firstSlot : ℤ) (boxes : Boxes)

/-- What the next pass does. -/
def handling : Handling :=
  let queues := (boxes caller).outgoing.queues
  let slot := (uvisorPoolQueueTryDequeueFirst queues ()).1
  if queues.pool.num ≤ slot then .nothing
  else if firstSlot = slot then .cameRound slot
  else
    match destination sys boxes caller slot with
    | none => .dropped slot
    | some callee =>
      let incoming := (boxes callee).incoming.queues
      let fresh := (uvisorPoolTryAllocate incoming).1
      if fresh < incoming.pool.num then .delivered slot callee fresh else .refused slot callee

/-- Entries of the caller's outgoing pool that the pass writes. -/
def callerEntries : List ℕ :=
  let queues := (boxes caller).outgoing.queues
  let dequeued := (uvisorPoolQueueTryDequeueFirst queues ()).2
  dequeueFirstEntries queues () ++
    match handling sys caller firstSlot boxes with
    | .cameRound slot | .refused slot _ => enqueueEntries dequeued () slot
    | _ => []

/-- Entries of the callee's incoming pool that the pass writes. -/
def calleeEntries : List ℕ :=
  match handling sys caller firstSlot boxes with
  | .refused _ callee => allocateEntries (boxes callee).incoming.queues
  | .delivered _ callee fresh =>
    let incoming := (boxes callee).incoming.queues
    let allocated := (uvisorPoolTryAllocate incoming).2
    allocateEntries incoming ++ enqueueEntries allocated .todo fresh
  | _ => []

/-- What the pass writes through the caller's outgoing queue. -/
def callerPlaces : List Place :=
  let queues := (boxes caller).outgoing.queues
  (callerEntries sys caller firstSlot boxes).map (entryPlace queues ()) ++
    match handling sys caller firstSlot boxes with
    | .delivered slot _ _ => [messagePlace queues.pool slot]
    | _ => []

/-- What the pass writes through the callee's todo queue. -/
def calleePlaces : List Place :=
  let entries := calleeEntries sys caller firstSlot boxes
  match handling sys caller firstSlot boxes with
  | .refused _ callee => entries.map (entryPlace (boxes callee).incoming.queues .todo)
  | .delivered _ callee fresh =>
    let incoming := (boxes callee).incoming.queues
    messagePlace incoming.pool fresh :: entries.map (entryPlace incoming .todo)
  | _ => []

/-- Whether a range has no address in common with any of some others. -/
def apart (p : Place) (places : List Place) : Bool := places.all fun q => !decide (p.Meets q)

/-- Queue, pool and messages of the outgoing side of a box. -/
def outgoingPlaces (box : ℕ) : List Place :=
  let queues := (boxes box).outgoing.queues
  [⟨sys.outgoingQueue box, 12⟩, ⟨(queues.queue ()).pool, 16+2*queues.pool.num⟩,
    ⟨queues.pool.array, messageSize*queues.pool.num⟩]

/-- Queues and pool of the incoming side of a box. -/
def incomingPlaces (box : ℕ) : List Place :=
  let queues := (boxes box).incoming.queues
  [⟨sys.incomingQueue .todo box, 12⟩, ⟨sys.incomingQueue .done box, 12⟩,
    ⟨(queues.queue .todo).pool, 16+2*queues.pool.num⟩]

/-- Whether the pass writes nothing over the outgoing side of the honest box
that is not its own message, copies the message to a place apart from the
callee's queues, and posts to no more function groups than there are. -/
def messagesContained (honest : ℕ) : Bool :=
  let guarded := outgoingPlaces sys boxes honest
  (decide (caller = honest) ||
      (callerPlaces sys caller firstSlot boxes).all fun p => apart p guarded) &&
    ((calleePlaces sys caller firstSlot boxes).all fun p => apart p guarded) &&
    match handling sys caller firstSlot boxes with
    | .delivered _ callee fresh =>
      apart (messagePlace (boxes callee).incoming.queues.pool fresh)
          (incomingPlaces sys boxes callee) &&
        decide ((boxes callee).fnGroups.queues.pool.num ≤ fnGroupSlots)
    | _ => true

/-- Whether the pass over finished calls writes nothing over the outgoing side
of the honest box that is not the message it completes. -/
def resultsContained (honest calleeBox : ℕ) : Bool :=
  (resultPlaces sys calleeBox boxes).all fun p => apart p (outgoingPlaces sys boxes honest)

end Places

/-! ## The system -/

/-- Memory, positions of the calling threads of the honest box and of the
monitor, and the history of its messages: each is numbered when it is filled
in. -/
structure State where
  /-- Memory of all boxes. -/
  boxes : Boxes
  /-- Positions of the calling threads. -/
  callers : ℕ → CallerPc
  /-- Position of the monitor. -/
  monitor : Monitor
  /-- Tokens returned by rpc_fncall_async. -/
  tokens : List ℕ
  /-- Number of messages that have been filled in. -/
  sends : ℕ
  /-- Number of the message in each slot. -/
  number : ℕ → ℕ
  /-- Numbers of the delivered messages, with the boxes they went to. -/
  delivered : List (ℕ × ℕ)
  /-- Numbers of the completed messages, with the boxes that completed them. -/
  completed : List (ℕ × ℕ)

/-- Steps of the system. A pass finds the lock of the outgoing queue held or
free. Its last argument is what stray writes would leave of the outgoing side
of the honest box. -/
inductive Action where
  | caller (thread : ℕ) (next : CallerStep)
  | timeout (thread : ℕ)
  | others (boxes : Boxes)
  | drainMessages (box : ℕ)
  | drainResults (box : ℕ)
  | pass (locked : Bool) (stray : Outgoing)

/-- The lock of the outgoing pool of the honest box, if a thread was interrupted
while holding it. -/
def ownLock (honest : ℕ) (locked : Bool) : Locks :=
  ⟨fun b => decide (b = honest) && locked, fun _ => false⟩

/-- Replace the outgoing side of a box. -/
def withOutgoingSide (boxes : Boxes) (box : ℕ) (outgoing : Outgoing) : Boxes :=
  let rpc := boxes box
  Function.update boxes box {rpc with outgoing := outgoing}

/-- Memory after a pass. -/
def settle (honest : ℕ) (locks : Locks) (contained : Bool) (stray : Outgoing) (boxes : Boxes) :
    Boxes :=
  if contained then locks.set false boxes
  else withOutgoingSide (locks.set false boxes) honest stray

/-- A step of a calling thread of the honest box. -/
def stepCaller (honest : ℕ) (s : State) (thread : ℕ) (next : CallerStep) : Option State :=
  let pc := s.callers thread
  (callerStep (s.boxes honest) pc next).map fun out =>
    let s := {s with
      boxes := Function.update s.boxes honest out.1
      callers := Function.update s.callers thread out.2
      tokens := noteToken s.tokens (s.boxes honest) pc out.2}
    match out.2 with
    | .filled _ slot =>
      {s with sends := s.sends+1, number := Function.update s.number slot s.sends}
    | _ => s

/-- A pass of drain_message_queue. -/
def stepMessages (sys : Platform) (honest : ℕ) (s : State) (box : ℕ) (firstSlot : ℤ)
    (locked : Bool) (stray : Outgoing) : Option State :=
  let locks := ownLock honest locked
  let boxes := locks.set true s.boxes
  let contained := messagesContained sys box firstSlot boxes honest
  let delivered :=
    match handling sys box firstSlot boxes with
    | .delivered slot callee _ =>
      if box = honest then (s.number slot, callee) :: s.delivered else s.delivered
    | _ => s.delivered
  match drainMessageBody sys box ⟨boxes, firstSlot⟩ with
  | .next st => some {s with
      boxes := settle honest locks contained stray st.boxes
      monitor := .messages box st.firstSlot
      delivered := delivered}
  | .stop st => some {s with
      boxes := settle honest locks contained stray st.boxes
      monitor := .idle
      delivered := delivered}
  | .hang => none

/-- A pass of drain_result_queue. -/
def stepResults (sys : Platform) (honest : ℕ) (s : State) (box : ℕ) (locked : Bool)
    (stray : Outgoing) : Option State :=
  let locks := ownLock honest locked
  let boxes := locks.set true s.boxes
  let contained := resultsContained sys boxes honest box
  let completed :=
    match completion sys box boxes with
    | some (b, slot) => if b = honest then (s.number slot, box) :: s.completed else s.completed
    | none => s.completed
  match drainResultBody sys box boxes with
  | .next boxes => some {s with
      boxes := settle honest locks contained stray boxes
      completed := completed}
  | .stop boxes => some {s with
      boxes := settle honest locks contained stray boxes
      monitor := .idle
      completed := completed}
  | .hang => none

/-- One step of the system. -/
def step (sys : Platform) (honest : ℕ) (s : State) : Action → Option State
  | .caller thread next => stepCaller honest s thread next
  | .timeout thread =>
    match s.callers thread with
    | .waiting _ _ => some {s with callers := Function.update s.callers thread .idle}
    | _ => none
  | .others boxes => some {s with
      boxes := withOutgoingSide boxes honest (s.boxes honest).outgoing}
  | .drainMessages box =>
    let queues := (s.boxes box).outgoing.queues
    if s.monitor = .idle ∧ isValidQueue sys (sys.outgoingQueue box) queues () box = true then
      some {s with monitor := .messages box (-1)}
    else none
  | .drainResults box =>
    let queues := (s.boxes box).incoming.queues
    if s.monitor = .idle ∧
        isValidQueue sys (sys.incomingQueue .done box) queues .done box = true then
      some {s with monitor := .results box}
    else none
  | .pass locked stray =>
    match s.monitor with
    | .idle => none
    | .messages box firstSlot => stepMessages sys honest s box firstSlot locked stray
    | .results box => stepResults sys honest s box locked stray

/-- A token of a finished message names a slot of the honest box's pool. -/
def cookieInRange (sys : Platform) (honest box : ℕ) (boxes : Boxes) : Bool :=
  match completion sys box boxes with
  | some (b, slot) =>
    !decide (b = honest) || decide (slot < (boxes honest).outgoing.queues.pool.num)
  | none => true

/-- The honest box waits for tokens that it got from rpc_fncall_async, tokens of
finished messages are in range, and no pass writes through a stray link or
array. -/
def Allowed (sys : Platform) (honest : ℕ) (s : State) : Action → Prop
  | .caller _ (.wait result) => result ∈ s.tokens
  | .pass locked _ =>
    let boxes := (ownLock honest locked).set true s.boxes
    match s.monitor with
    | .idle => True
    | .messages box firstSlot => messagesContained sys box firstSlot boxes honest = true
    | .results box => resultsContained sys boxes honest box = true ∧
        cookieInRange sys honest box boxes = true
  | _ => True

/-- The outgoing queue of the honest box has been initialized in cleared
memory, and nothing has happened. -/
structure Initial (honest : ℕ) (s : State) : Prop where
  /-- Outgoing side of the honest box. -/
  outgoing : ∃ layout rpc, (s.boxes honest).outgoing =
      (uvisorInitializeRpcQueues layout rpc).outgoing ∧
    ∀ slot, (rpc.outgoing.messages slot).state = .invalid ∧
      (rpc.outgoing.messages slot).matchCookie = 0
  /-- No thread is inside a call. -/
  callers : ∀ t, s.callers t = .idle
  /-- Nothing is being drained. -/
  monitor : s.monitor = .idle
  /-- No token has been returned. -/
  tokens : s.tokens = []
  /-- No message has been delivered. -/
  delivered : s.delivered = []
  /-- No message has been completed. -/
  completed : s.completed = []

/-- Every message is delivered at most once, and completed at most once, by the
box it has been delivered to. -/
structure CompletedOnce (s : State) : Prop where
  /-- No message has been delivered twice. -/
  delivered_once : (s.delivered.map Prod.fst).Nodup
  /-- No message has been completed twice. -/
  completed_once : (s.completed.map Prod.fst).Nodup
  /-- Messages are completed by the boxes they have been delivered to. -/
  by_callee : ∀ p ∈ s.completed, p ∈ s.delivered

/-! ## Passes over outgoing messages -/

section Messages

variable {sys : Platform} {boxes : Boxes} {caller callee slot fresh b : ℕ} {firstSlot : ℤ}
  {st st' : DrainState}

/-- A slot that has just been allocated can be queued, whatever the pool holds. -/
theorem enqueue_allocated {ι : Type} [DecidableEq ι] (m : PoolQueues ι) (name : ι) :
    (uvisorPoolQueueTryEnqueue (uvisorPoolTryAllocate m).2 name
      (uvisorPoolTryAllocate m).1).1 = 0 := by
  cases hl : m.pool.spinlock with
  | true =>
    have hheld : uvisorPoolTryAllocate m = (slotInvalid, m) := withTrylock_of_held hl
    rw [hheld]
    rfl
  | false =>
    have hfree : (uvisorPoolTryAllocate m).2.pool.spinlock = false := by
      rw [uvisorPoolTryAllocate_spinlock, hl]
    unfold uvisorPoolQueueTryEnqueue
    split
    · rw [withTrylock_of_free hfree]
    · rfl

/-- The caller's outgoing queue after a pass. -/
def queuesAfter (caller : ℕ) (boxes : Boxes) : Handling → PoolQueues Unit
  | .cameRound slot | .refused slot _ =>
    putItBack (uvisorPoolQueueTryDequeueFirst (boxes caller).outgoing.queues ()).2 () slot
  | _ => (uvisorPoolQueueTryDequeueFirst (boxes caller).outgoing.queues ()).2

/-- The caller's outgoing messages after a pass. -/
def messagesAfter (caller : ℕ) (boxes : Boxes) : Handling → ℕ → Message
  | .delivered slot callee _ =>
    let messages := (boxes caller).outgoing.messages
    Function.update messages slot {messages slot with otherBoxId := callee, state := .sent}
  | _ => (boxes caller).outgoing.messages

/-- The incoming queues of a box after a pass. -/
def incomingAfter (boxes : Boxes) (b : ℕ) : Handling → PoolQueues IncomingName
  | .refused _ callee =>
    if b = callee then (uvisorPoolTryAllocate (boxes callee).incoming.queues).2
    else (boxes b).incoming.queues
  | .delivered _ callee fresh =>
    if b = callee then
      (uvisorPoolQueueTryEnqueue (uvisorPoolTryAllocate (boxes callee).incoming.queues).2 .todo
        fresh).2
    else (boxes b).incoming.queues
  | _ => (boxes b).incoming.queues

/-- What a pass does, told from the memory before and after. -/
structure Handled (caller : ℕ) (boxes boxes' : Boxes) (handling : Handling) : Prop where
  /-- Outgoing sides of other boxes. -/
  others : ∀ b, b ≠ caller → (boxes' b).outgoing = (boxes b).outgoing
  /-- The caller's queue. -/
  queues : (boxes' caller).outgoing.queues = queuesAfter caller boxes handling
  /-- The caller's messages. -/
  messages : (boxes' caller).outgoing.messages = messagesAfter caller boxes handling
  /-- Incoming queues of all boxes. -/
  incoming : ∀ b, (boxes' b).incoming.queues = incomingAfter boxes b handling

theorem setOutgoing_of_ne (q : PoolQueues Unit) (h : b ≠ caller) :
    (boxes.setOutgoing caller q b).outgoing = (boxes b).outgoing := by
  simp [Boxes.setOutgoing, h]

theorem setOutgoingMessage_of_ne (msg : Message) (h : b ≠ caller) :
    (boxes.setOutgoingMessage caller slot msg b).outgoing = (boxes b).outgoing := by
  simp [Boxes.setOutgoingMessage, h]

/-- A delivery copies the message and marks it as sent. -/
theorem deliver_handled
    (h : deliver sys caller callee slot (uvisorPoolTryAllocate (boxes callee).incoming.queues).1
        firstSlot ((dequeuedBoxes caller boxes).setIncoming callee
          (uvisorPoolTryAllocate (boxes callee).incoming.queues).2) = .next st ∨
      deliver sys caller callee slot (uvisorPoolTryAllocate (boxes callee).incoming.queues).1
        firstSlot ((dequeuedBoxes caller boxes).setIncoming callee
          (uvisorPoolTryAllocate (boxes callee).incoming.queues).2) = .stop st) :
    Handled caller boxes st.boxes (.delivered slot callee
      (uvisorPoolTryAllocate (boxes callee).incoming.queues).1) := by
  have hstatus := enqueue_allocated (boxes callee).incoming.queues .todo
  unfold deliver at h
  simp only [setOutgoingMessage_incoming, setIncomingMessage_queues, setIncoming_queues, if_true,
    hstatus, ne_eq, not_true_eq_false, if_false] at h
  split at h
  · rcases h with h | h <;> cases h
  · rcases h with h | h <;> cases h
    refine ⟨fun b hb => ?_, ?_, funext fun s => ?_, fun b => ?_⟩
    · rw [setFnGroups_outgoing, setIncoming_outgoing, setOutgoingMessage_of_ne _ hb,
        setIncomingMessage_outgoing, setIncoming_outgoing, dequeuedBoxes, setOutgoing_of_ne _ hb]
    · simp [queuesAfter, dequeuedBoxes]
    · by_cases hs : s = slot
      · subst hs
        simp [messagesAfter, dequeuedBoxes]
      · simp [messagesAfter, dequeuedBoxes, hs]
    · by_cases hb : b = callee
      · subst hb
        simp [incomingAfter]
      · simp [incomingAfter, dequeuedBoxes, hb]

/-- What a pass does with a message that it has dequeued. -/
theorem handling_dequeued
    (hs : (uvisorPoolQueueTryDequeueFirst (boxes caller).outgoing.queues ()).1 = slot)
    (hlt : slot < (boxes caller).outgoing.queues.pool.num) :
    handling sys caller firstSlot boxes =
      if firstSlot = slot then .cameRound slot
      else
        match destination sys boxes caller slot with
        | none => .dropped slot
        | some callee =>
          let incoming := (boxes callee).incoming.queues
          let fresh := (uvisorPoolTryAllocate incoming).1
          if fresh < incoming.pool.num then .delivered slot callee fresh
          else .refused slot callee := by
  simp only [handling, hs, if_neg (Nat.not_le.mpr hlt)]

/-- What every pass does, for any contents of the memory. -/
theorem drainMessageBody_handled
    (h : drainMessageBody sys caller ⟨boxes, firstSlot⟩ = .next st ∨
      drainMessageBody sys caller ⟨boxes, firstSlot⟩ = .stop st) :
    Handled caller boxes st.boxes (handling sys caller firstSlot boxes) := by
  have hdequeued : ∀ b, b ≠ caller →
      (dequeuedBoxes caller boxes b).outgoing = (boxes b).outgoing :=
    fun b hb => setOutgoing_of_ne _ hb
  by_cases hnum : (boxes caller).outgoing.queues.pool.num ≤
      (uvisorPoolQueueTryDequeueFirst (boxes caller).outgoing.queues ()).1
  · have hnothing : handling sys caller firstSlot boxes = .nothing := by
      simp only [handling, if_pos hnum]
    unfold drainMessageBody at h
    simp only [if_pos hnum] at h
    rw [hnothing]
    rcases h with h | h <;> cases h
    exact ⟨hdequeued, by simp [queuesAfter], funext fun s => by simp [messagesAfter],
      fun b => by simp [incomingAfter]⟩
  · generalize hslot : (uvisorPoolQueueTryDequeueFirst (boxes caller).outgoing.queues ()).1 =
      slot at hnum
    have hlt := Nat.not_le.mp hnum
    rw [pass_dequeued hslot hlt] at h
    rw [handling_dequeued hslot hlt]
    dsimp only at h
    by_cases hseen : firstSlot = slot
    · rw [if_pos hseen] at h
      rw [if_pos hseen]
      rcases h with h | h <;> cases h
      exact ⟨fun b hb => (setOutgoing_of_ne _ hb).trans (hdequeued b hb),
        by simp [queuesAfter, dequeuedBoxes],
        funext fun s => by simp [messagesAfter, dequeuedBoxes],
        fun b => by simp [incomingAfter, dequeuedBoxes]⟩
    · rw [if_neg hseen] at h
      rw [if_neg hseen]
      cases hdest : destination sys boxes caller slot with
      | none =>
        rw [forward_none ((destination_dequeuedBoxes sys caller boxes slot).trans hdest)] at h
        rcases h with h | h <;> cases h
        exact ⟨hdequeued, by simp [queuesAfter, dequeuedBoxes],
          funext fun s => by simp [messagesAfter, dequeuedBoxes],
          fun b => by simp [incomingAfter, dequeuedBoxes]⟩
      | some callee =>
        have hincoming : (dequeuedBoxes caller boxes callee).incoming =
            (boxes callee).incoming := by
          simp [dequeuedBoxes]
        rw [forward_some ((destination_dequeuedBoxes sys caller boxes slot).trans hdest)] at h
        simp only [hincoming] at h
        dsimp only
        by_cases hroom : (uvisorPoolTryAllocate (boxes callee).incoming.queues).1 <
            (boxes callee).incoming.queues.pool.num
        · rw [if_pos hroom] at h
          rw [if_pos hroom]
          exact deliver_handled h
        · rw [if_neg hroom] at h
          rw [if_neg hroom]
          rcases h with h | h <;> cases h
          refine ⟨fun b hb => ?_, by simp [queuesAfter, dequeuedBoxes],
            funext fun s => by simp [messagesAfter, dequeuedBoxes], fun b => ?_⟩
          · rw [setOutgoing_of_ne _ hb, setIncoming_outgoing, hdequeued b hb]
          · by_cases hb : b = callee
            · subst hb
              simp [incomingAfter]
            · simp [incomingAfter, dequeuedBoxes, hb]

/-- A pass writes no entry of the caller's outgoing pool but the listed ones. -/
theorem Handled.callerEntry {boxes' : Boxes}
    (h : Handled caller boxes boxes' (handling sys caller firstSlot boxes)) {i : ℕ}
    (hi : i ∉ callerEntries sys caller firstSlot boxes) :
    (boxes' caller).outgoing.queues.pool.managementArray i =
      (boxes caller).outgoing.queues.pool.managementArray i := by
  simp only [callerEntries, List.mem_append, not_or] at hi
  obtain ⟨hdequeue, hback⟩ := hi
  rw [h.queues]
  cases hh : handling sys caller firstSlot boxes with
  | cameRound slot =>
    rw [hh] at hback
    exact (enqueue_entry hback).trans (dequeueFirst_entry hdequeue)
  | refused slot callee =>
    rw [hh] at hback
    exact (enqueue_entry hback).trans (dequeueFirst_entry hdequeue)
  | _ => exact dequeueFirst_entry hdequeue

/-- A pass writes no entry of any incoming pool but the listed ones of the
callee. -/
theorem Handled.calleeEntry {boxes' : Boxes}
    (h : Handled caller boxes boxes' (handling sys caller firstSlot boxes)) {i : ℕ}
    (hi : i ∉ calleeEntries sys caller firstSlot boxes) (b : ℕ) :
    (boxes' b).incoming.queues.pool.managementArray i =
      (boxes b).incoming.queues.pool.managementArray i := by
  rw [h.incoming]
  unfold calleeEntries at hi
  cases hh : handling sys caller firstSlot boxes with
  | refused slot callee =>
    rw [hh] at hi
    simp only [incomingAfter]
    split
    · rename_i hb
      subst hb
      exact allocate_entry hi
    · rfl
  | delivered slot callee fresh =>
    rw [hh] at hi
    obtain ⟨hallocate, henqueue⟩ := not_or.mp (mt List.mem_append.mpr hi)
    simp only [incomingAfter]
    split
    · rename_i hb
      subst hb
      exact (enqueue_entry henqueue).trans (allocate_entry hallocate)
    · rfl
  | _ => rfl

/-- What a pass does to the caller's queue and messages. -/
def Outcome (o o' : Outgoing) (out out' : List ℕ) : Handling → Prop
  | .nothing => out' = out ∧ o'.messages = o.messages
  | .cameRound slot | .refused slot _ =>
    ∃ rest, out = slot :: rest ∧ out' = rest ++ [slot] ∧ o'.messages = o.messages
  | .dropped slot => ∃ rest, out = slot :: rest ∧ out' = rest ∧ o'.messages = o.messages
  | .delivered slot callee _ => ∃ rest, out = slot :: rest ∧ out' = rest ∧
      o'.messages = Function.update o.messages slot
        {o.messages slot with otherBoxId := callee, state := .sent}

/-- A slot that has just been dequeued is put back at the end. -/
theorem putItBack_dequeued {m : PoolQueues Unit} {free rest : List ℕ}
    (hr : Represents m free (fun _ => rest)) (hl : m.pool.spinlock = false)
    (hheld : Held m free (fun _ => rest) slot) :
    Represents (putItBack m () slot) free (fun _ => rest ++ [slot]) ∧
      (putItBack m () slot).pool.spinlock = false ∧ header (putItBack m () slot) = header m := by
  obtain ⟨-, hback⟩ := tryEnqueue_held hr hl () hheld
  rw [update_unit] at hback
  exact ⟨hback, by rw [putItBack, uvisorPoolQueueTryEnqueue_spinlock, hl],
    by rw [putItBack, header_uvisorPoolQueueTryEnqueue]⟩

/-- A pass over a well-formed queue keeps it well formed, whatever the callees
hold. -/
theorem Handled.represents {boxes' : Boxes} {free out : List ℕ}
    (h : Handled caller boxes boxes' (handling sys caller firstSlot boxes))
    (hr : Represents (boxes caller).outgoing.queues free (fun _ => out))
    (hl : (boxes caller).outgoing.queues.pool.spinlock = false) :
    ∃ out', Represents (boxes' caller).outgoing.queues free (fun _ => out') ∧
      (boxes' caller).outgoing.queues.pool.spinlock = false ∧
      header (boxes' caller).outgoing.queues = header (boxes caller).outgoing.queues ∧
      Outcome (boxes caller).outgoing (boxes' caller).outgoing out out'
        (handling sys caller firstSlot boxes) := by
  have hnum := hr.num_lt
  have hqueues := h.queues
  have hmessages := h.messages
  cases out with
  | nil =>
    have hempty := tryDequeueFirst_nil (q := ()) hr hl rfl
    have hnothing : handling sys caller firstSlot boxes = .nothing := by
      simp only [handling, hempty, poolMaxValid, slotInvalid] at hnum ⊢
      exact if_pos (by omega)
    rw [hnothing] at hqueues hmessages ⊢
    simp only [queuesAfter, hempty] at hqueues
    rw [hqueues]
    exact ⟨[], hr, hl, rfl, rfl, hmessages⟩
  | cons slot rest =>
    obtain ⟨hslot, hr', hheld⟩ := tryDequeueFirst_cons (q := ()) hr hl rfl
    rw [update_unit] at hr' hheld
    have hlt : slot < (boxes caller).outgoing.queues.pool.num := hr.lists_lt () slot (by simp)
    have hlock : (uvisorPoolQueueTryDequeueFirst
        (boxes caller).outgoing.queues ()).2.pool.spinlock = false := by
      rw [uvisorPoolQueueTryDequeueFirst_spinlock, hl]
    have hheader := header_uvisorPoolQueueTryDequeueFirst (boxes caller).outgoing.queues ()
    obtain ⟨hback, hbackLock, hbackHeader⟩ := putItBack_dequeued hr' hlock hheld
    have hdequeued : handling sys caller firstSlot boxes = _ := handling_dequeued hslot hlt
    by_cases hseen : firstSlot = slot
    · rw [if_pos hseen] at hdequeued
      rw [hdequeued] at hqueues hmessages ⊢
      simp only [queuesAfter] at hqueues
      rw [hqueues]
      exact ⟨rest ++ [slot], hback, hbackLock, hbackHeader.trans hheader, rest, rfl, rfl, hmessages⟩
    · rw [if_neg hseen] at hdequeued
      cases hdest : destination sys boxes caller slot with
      | none =>
        rw [hdest] at hdequeued
        dsimp only at hdequeued
        rw [hdequeued] at hqueues hmessages ⊢
        simp only [queuesAfter] at hqueues
        rw [hqueues]
        exact ⟨rest, hr', hlock, hheader, rest, rfl, rfl, hmessages⟩
      | some callee =>
        rw [hdest] at hdequeued
        dsimp only at hdequeued
        split at hdequeued
        · rw [hdequeued] at hqueues hmessages ⊢
          simp only [queuesAfter] at hqueues
          rw [hqueues]
          exact ⟨rest, hr', hlock, hheader, rest, rfl, rfl, hmessages⟩
        · rw [hdequeued] at hqueues hmessages ⊢
          simp only [queuesAfter] at hqueues
          rw [hqueues]
          exact ⟨rest ++ [slot], hback, hbackLock, hbackHeader.trans hheader, rest, rfl, rfl,
            hmessages⟩

end Messages

/-! ## The lock of the honest box -/

section OwnLock

variable {sys : Platform} {boxes : Boxes} {honest : ℕ} {firstSlot : ℤ} {st : DrainState}
  {free out : List ℕ}

theorem set_ownLock_false (honest : ℕ) (acquired : Bool) (boxes : Boxes) :
    (ownLock honest false).set acquired boxes = boxes := by
  funext b
  simp [Locks.set, ownLock]

/-- A lock that was free and has been taken is given back, when the pass has
not touched the outgoing queue. -/
theorem set_queues_back {boxes' : Boxes} (locked : Bool)
    (hl : (boxes honest).outgoing.queues.pool.spinlock = false)
    (hsame : (boxes' honest).outgoing.queues =
      ((ownLock honest locked).set true boxes honest).outgoing.queues) :
    ((ownLock honest locked).set false boxes' honest).outgoing.queues =
      (boxes honest).outgoing.queues := by
  cases locked with
  | false =>
    rw [set_ownLock_false] at hsame ⊢
    exact hsame
  | true =>
    have hheld : (ownLock honest true).outgoing honest = true := by simp [ownLock]
    rw [set_outgoing_held _ _ _ _ hheld, hsame, set_outgoing_held _ _ _ _ hheld]
    exact unlock_setLock hl true

/-- An outgoing side is its queue and its messages. -/
theorem outgoing_ext {o o' : Outgoing} (hqueues : o'.queues = o.queues)
    (hmessages : o'.messages = o.messages) : o' = o := by
  cases o
  cases o'
  cases hqueues
  cases hmessages
  rfl

/-- A pass that has not touched the outgoing side leaves it as it was. -/
theorem set_ownLock_back {boxes' : Boxes} (locked : Bool)
    (hl : (boxes honest).outgoing.queues.pool.spinlock = false)
    (hsame : (boxes' honest).outgoing = ((ownLock honest locked).set true boxes honest).outgoing) :
    ((ownLock honest locked).set false boxes' honest).outgoing = (boxes honest).outgoing := by
  have hqueues := set_queues_back locked hl (congrArg Outgoing.queues hsame)
  have hmessages : ((ownLock honest locked).set false boxes' honest).outgoing.messages =
      (boxes honest).outgoing.messages := by
    rw [set_outgoing_messages, hsame, set_outgoing_messages]
  exact outgoing_ext hqueues hmessages

/-- A pass that finds the lock held does nothing. -/
theorem pass_locked (hlock : (boxes honest).outgoing.queues.pool.spinlock = true)
    (hnum : (boxes honest).outgoing.queues.pool.num ≤ slotInvalid) :
    drainMessageBody sys honest ⟨boxes, firstSlot⟩ = .stop ⟨boxes, firstSlot⟩ ∧
      handling sys honest firstSlot boxes = .nothing := by
  have hheld : uvisorPoolQueueTryDequeueFirst (boxes honest).outgoing.queues () =
      (slotInvalid, (boxes honest).outgoing.queues) := withTrylock_of_held hlock
  constructor
  · unfold drainMessageBody
    simp only [hheld, if_pos hnum]
    rw [setOutgoing_self]
  · simp only [handling, hheld, if_pos hnum]

/-- A pass over the messages of the honest box, whether or not a thread holds
the lock. -/
theorem pass_honest (locked : Bool)
    (hr : Represents (boxes honest).outgoing.queues free (fun _ => out))
    (hl : (boxes honest).outgoing.queues.pool.spinlock = false)
    (h : drainMessageBody sys honest ⟨(ownLock honest locked).set true boxes, firstSlot⟩ =
        .next st ∨
      drainMessageBody sys honest ⟨(ownLock honest locked).set true boxes, firstSlot⟩ =
        .stop st) :
    let o' := ((ownLock honest locked).set false st.boxes honest).outgoing
    ∃ out', Represents o'.queues free (fun _ => out') ∧ o'.queues.pool.spinlock = false ∧
      header o'.queues = header (boxes honest).outgoing.queues ∧
      Outcome (boxes honest).outgoing o' out out'
        (handling sys honest firstSlot ((ownLock honest locked).set true boxes)) := by
  cases locked with
  | false =>
    simp only [set_ownLock_false] at h ⊢
    exact (drainMessageBody_handled h).represents hr hl
  | true =>
    have hnum := hr.num_lt
    have hheld : ((ownLock honest true).set true boxes honest).outgoing.queues.pool.spinlock =
        true := by
      rw [set_outgoing_held _ _ _ _ (by simp [ownLock])]
      rfl
    have hend : ((ownLock honest true).set true boxes honest).outgoing.queues.pool.num ≤
        slotInvalid := by
      rw [num_of_header () (set_outgoing_header _ _ _ _)]
      simp only [poolMaxValid, slotInvalid] at *
      omega
    have hstop : drainMessageBody sys honest ⟨(ownLock honest true).set true boxes, firstSlot⟩ =
        .stop ⟨(ownLock honest true).set true boxes, firstSlot⟩ := (pass_locked hheld hend).1
    have hnothing : handling sys honest firstSlot ((ownLock honest true).set true boxes) =
        .nothing := (pass_locked hheld hend).2
    rw [hstop] at h
    rw [hnothing]
    rcases h with h | h <;> cases h
    have hback := set_ownLock_back true hl rfl
    rw [hback]
    exact ⟨out, hr, hl, rfl, rfl, rfl⟩

end OwnLock

end Uvisor.RpcMaliciousBoxes
