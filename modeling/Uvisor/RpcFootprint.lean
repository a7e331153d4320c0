import Uvisor.RpcDescription

/-!
# Where the pass over finished calls writes

A pass of drain_result_queue works on the active box's own pool, whose links
are not checked against its bounds, and on one message of a caller. The
management entries, the message and their addresses are spelled out for any
contents of the pool. What the pass changes in the memory of other boxes is
one message of a caller that waits for exactly this result, unless an entry
or the message lies outside the box.
-/

namespace Uvisor.RpcFootprint

open PoolQueue PoolInvariant PoolOperations Rpc RpcApi RpcDescription Execution

/-! ## Management entries -/

section Entries

variable {ι : Type} [DecidableEq ι] (m : PoolQueues ι) (name : ι) (slot : ℕ)

/-- Entries written by uvisor_pool_queue_try_dequeue_first. -/
def dequeueFirstEntries : List ℕ :=
  let q := m.queue name
  if m.pool.spinlock = true ∨ q.head = slotInvalid then []
  else if q.head = q.tail then [q.head]
  else [m.pool.next q.head, q.head]

/-- Entries written by uvisor_pool_try_free. -/
def freeEntries : List ℕ :=
  if m.pool.num ≤ slot ∨ m.pool.spinlock = true ∨ m.pool.prev slot = slotIsFree then []
  else [slot]

/-- Entries written by uvisor_pool_try_allocate. -/
def allocateEntries : List ℕ :=
  if m.pool.spinlock = true ∨ m.pool.firstFree = slotInvalid then [] else [m.pool.firstFree]

/-- Entries written by uvisor_pool_queue_try_enqueue. -/
def enqueueEntries : List ℕ :=
  let q := m.queue name
  if m.pool.spinlock = true ∨ slot = slotInvalid then []
  else if q.head = slotInvalid then [slot]
  else [q.tail, slot]

variable {m name slot}

theorem setNext_entry {pool : Pool} {s i value : ℕ} (h : i ≠ s) :
    (pool.setNext s value).managementArray i = pool.managementArray i :=
  Function.update_of_ne h _ _

theorem setPrev_entry {pool : Pool} {s i value : ℕ} (h : i ≠ s) :
    (pool.setPrev s value).managementArray i = pool.managementArray i :=
  Function.update_of_ne h _ _

omit [DecidableEq ι] in
/-- A try operation writes the entries that its critical section writes. -/
theorem withTrylock_entry {β : Type} {failure : β} {body : PoolQueues ι → β × PoolQueues ι} {i : ℕ}
    (h : m.pool.spinlock = false →
      (body (m.setLock true)).2.pool.managementArray i = m.pool.managementArray i) :
    (withTrylock m failure body).2.pool.managementArray i = m.pool.managementArray i := by
  cases hl : m.pool.spinlock with
  | true => rw [withTrylock_of_held hl]
  | false =>
    rw [withTrylock_of_free hl]
    exact h hl

/-- All entries that the dequeue does not list stay as they are. -/
theorem dequeueFirst_entry {i : ℕ} (h : i ∉ dequeueFirstEntries m name) :
    (uvisorPoolQueueTryDequeueFirst m name).2.pool.managementArray i =
      m.pool.managementArray i := by
  refine withTrylock_entry fun hl => ?_
  simp only [dequeueFirstEntries, hl, Bool.false_eq_true, false_or] at h
  unfold tryDequeueFirst
  dsimp only
  split
  · rename_i hhead
    change (m.queue name).head ≠ slotInvalid at hhead
    rw [if_neg hhead] at h
    unfold dequeue
    by_cases htail : (m.queue name).head = (m.queue name).tail
    · rw [if_pos htail, List.mem_singleton] at h
      change i ≠ (m.queue name).head at h
      simp only [PoolQueues.setLock, if_pos htail]
      rw [setPrev_entry h, setNext_entry h]
      rfl
    · rw [if_neg htail, List.mem_cons, List.mem_singleton, not_or] at h
      simp only [PoolQueues.setLock, if_neg htail, if_true]
      rw [setPrev_entry h.2, setNext_entry h.2]
      exact setPrev_entry h.1
  · rfl

omit [DecidableEq ι] in
/-- All entries that the free does not list stay as they are. -/
theorem free_entry {i : ℕ} (h : i ∉ freeEntries m slot) :
    (uvisorPoolTryFree m slot).2.pool.managementArray i = m.pool.managementArray i := by
  unfold uvisorPoolTryFree
  split
  · rfl
  · rename_i hnum
    refine withTrylock_entry fun hl => ?_
    unfold freeSection
    split
    · rfl
    · rename_i hfree
      change m.pool.prev slot ≠ slotIsFree at hfree
      have hne : i ≠ slot := by simpa [freeEntries, hnum, hl, hfree] using h
      change (((m.setLock true).pool.setNext slot m.pool.firstFree).setPrev slot
        slotIsFree).managementArray i = _
      rw [setPrev_entry hne, setNext_entry hne]
      rfl

omit [DecidableEq ι] in
/-- All entries that the allocation does not list stay as they are. -/
theorem allocate_entry {i : ℕ} (h : i ∉ allocateEntries m) :
    (uvisorPoolTryAllocate m).2.pool.managementArray i = m.pool.managementArray i := by
  refine withTrylock_entry fun hl => ?_
  simp only [allocateSection, poolAlloc]
  split
  · rename_i hfirst
    change m.pool.firstFree ≠ slotInvalid at hfirst
    have hne : i ≠ m.pool.firstFree := by simpa [allocateEntries, hl, hfirst] using h
    exact (setPrev_entry hne).trans (setNext_entry hne)
  · rfl

/-- All entries that the enqueue does not list stay as they are. -/
theorem enqueue_entry {i : ℕ} (h : i ∉ enqueueEntries m name slot) :
    (uvisorPoolQueueTryEnqueue m name slot).2.pool.managementArray i =
      m.pool.managementArray i := by
  unfold uvisorPoolQueueTryEnqueue
  split
  · rename_i hslot
    refine withTrylock_entry fun hl => ?_
    simp only [enqueueEntries, hl, Bool.false_eq_true, false_or, if_neg hslot] at h
    unfold enqueue
    by_cases hhead : (m.queue name).head = slotInvalid
    · rw [if_pos hhead, List.mem_singleton] at h
      change i ≠ slot at h
      dsimp only [PoolQueues.setLock]
      rw [if_pos hhead, setNext_entry h, setPrev_entry h]
      rfl
    · rw [if_neg hhead, List.mem_cons, List.mem_singleton, not_or] at h
      dsimp only [PoolQueues.setLock]
      rw [if_neg hhead, setNext_entry h.2, setPrev_entry h.2]
      exact setNext_entry h.1
  · rfl

end Entries

/-! ## Addresses -/

/-- A range of addresses. -/
structure Place where
  /-- First address. -/
  start : ℕ
  /-- Number of bytes. -/
  size : ℕ
  deriving DecidableEq

/-- Two ranges have an address in common. -/
def Place.Meets (p q : Place) : Prop := p.start < q.start+q.size ∧ q.start < p.start+p.size

instance (p q : Place) : Decidable (p.Meets q) := inferInstanceAs (Decidable (_ ∧ _))

/-- Memory of a box. -/
def boxPlace (sys : Platform) (b : ℕ) : Place := ⟨sys.bss b, sys.bssSize b⟩

/-- Management entry of a slot, behind the header of the pool. -/
def entryPlace {ι : Type} (m : PoolQueues ι) (name : ι) (slot : ℕ) : Place :=
  ⟨wrap ((m.queue name).pool+16+2*slot), 2⟩

/-- Size of uvisor_rpc_message_t. -/
def messageSize : ℕ := 76

/-- Message of a slot. The stride of the pool does not enter its address. -/
def messagePlace (pool : Pool) (slot : ℕ) : Place :=
  ⟨wrap (pool.array+messageSize*slot), messageSize⟩

/-- State of the message of a slot. -/
def statePlace (pool : Pool) (slot : ℕ) : Place := ⟨wrap (pool.array+messageSize*slot+68), 4⟩

/-! ## A pass over the finished calls -/

section Passes

variable (sys : Platform) (calleeBox : ℕ) (boxes : Boxes)

/-- Box and slot of the message that the next pass of drain_result_queue
completes, if it completes one. -/
def completion : Option (ℕ × ℕ) :=
  let queues := (boxes calleeBox).incoming.queues
  let calleeSlot := (uvisorPoolQueueTryDequeueFirst queues .done).1
  let calleeMsg := (boxes calleeBox).incoming.messages calleeSlot
  let callerBox := calleeMsg.otherBoxId.toNat
  let callerSlot := uvisorResultSlot calleeMsg.matchCookie
  if queues.pool.num ≤ calleeSlot then none
  else if calleeMsg.otherBoxId < 0 ∨ (sys.boxCount : ℤ) ≤ calleeMsg.otherBoxId then none
  else if acceptsResult sys calleeBox callerBox callerSlot calleeMsg boxes then
    some (callerBox, callerSlot)
  else none

/-- What the pass writes through the done queue of its own box: the entries of
the dequeue, and after a completion the state of the message and the entry of
the slot that is freed. -/
def resultPlaces : List Place :=
  let queues := (boxes calleeBox).incoming.queues
  let dequeued := uvisorPoolQueueTryDequeueFirst queues .done
  (dequeueFirstEntries queues .done).map (entryPlace queues .done) ++
    if completion sys calleeBox boxes = none then []
    else statePlace queues.pool dequeued.1 ::
      (freeEntries dequeued.2 dequeued.1).map (entryPlace queues .done)

/-- A range has no address in the memory of another box. -/
def Avoids (p : Place) : Prop := ∀ b < sys.boxCount, b ≠ calleeBox → ¬p.Meets (boxPlace sys b)

/-- The message was waiting for this box to complete the call that has the
token of the finished message, and gets result, state and semaphore. -/
def Completes (b slot : ℕ) (msg' : Message) : Prop :=
  let queues := (boxes calleeBox).incoming.queues
  let calleeMsg :=
    (boxes calleeBox).incoming.messages (uvisorPoolQueueTryDequeueFirst queues .done).1
  let msg := (boxes b).outgoing.messages slot
  msg.state = .sent ∧ msg.otherBoxId = calleeBox ∧ msg.matchCookie = calleeMsg.matchCookie ∧
    calleeMsg.otherBoxId = b ∧ uvisorResultSlot calleeMsg.matchCookie = slot ∧
    ∃ count, msg' = {msg with result := calleeMsg.result, state := .done, semaphore := count} ∧
      (count = msg.semaphore ∨ count = semaphorePost msg.semaphore)

/-- What the pass does to another box: at most one message is completed. -/
structure Authentic (b : ℕ) (boxes' : Boxes) : Prop where
  /-- The incoming side is not written. -/
  incoming : (boxes' b).incoming = (boxes b).incoming
  /-- The function groups are not written. -/
  fnGroups : (boxes' b).fnGroups = (boxes b).fnGroups
  /-- The counter is not written. -/
  resultCounter : (boxes' b).resultCounter = (boxes b).resultCounter
  /-- The outgoing queue is not written. -/
  queues : (boxes' b).outgoing.queues = (boxes b).outgoing.queues
  /-- A message that is written is completed. -/
  messages : ∀ slot, (boxes' b).outgoing.messages slot = (boxes b).outgoing.messages slot ∨
    completion sys calleeBox boxes = some (b, slot) ∧
      Completes calleeBox boxes b slot ((boxes' b).outgoing.messages slot)

/-- Everything that the pass writes into the memory of other boxes belongs to
a message that it completes. -/
def PassSpares : Prop :=
  (∀ p ∈ resultPlaces sys calleeBox boxes, Avoids sys calleeBox p) ∧
    ∀ boxes', drainResultBody sys calleeBox boxes = .next boxes' ∨
      drainResultBody sys calleeBox boxes = .stop boxes' →
      ∀ b, b ≠ calleeBox → Authentic sys calleeBox boxes b boxes'

/-- The links and the array of the done queue lead nowhere into the memory of
other boxes. -/
structure StaysHome : Prop where
  /-- The entry of the head. -/
  entry : (boxes calleeBox).incoming.queues.pool.spinlock = false →
    ((boxes calleeBox).incoming.queues.queue .done).head ≠ slotInvalid →
    Avoids sys calleeBox (entryPlace (boxes calleeBox).incoming.queues .done
      ((boxes calleeBox).incoming.queues.queue .done).head)
  /-- The entry behind the head, when the head is not also the tail. -/
  link : (boxes calleeBox).incoming.queues.pool.spinlock = false →
    ((boxes calleeBox).incoming.queues.queue .done).head ≠ slotInvalid →
    ((boxes calleeBox).incoming.queues.queue .done).head ≠
      ((boxes calleeBox).incoming.queues.queue .done).tail →
    Avoids sys calleeBox (entryPlace (boxes calleeBox).incoming.queues .done
      ((boxes calleeBox).incoming.queues.pool.next
        ((boxes calleeBox).incoming.queues.queue .done).head))
  /-- The finished message and the entry that is freed. -/
  message : completion sys calleeBox boxes ≠ none →
    let dequeued := uvisorPoolQueueTryDequeueFirst (boxes calleeBox).incoming.queues .done
    Avoids sys calleeBox (statePlace (boxes calleeBox).incoming.queues.pool dequeued.1) ∧
      ∀ slot ∈ freeEntries dequeued.2 dequeued.1,
        Avoids sys calleeBox (entryPlace (boxes calleeBox).incoming.queues .done slot)

variable {sys calleeBox boxes}

/-- What the accepting checks say. -/
theorem completion_some {b slot : ℕ} (h : completion sys calleeBox boxes = some (b, slot)) :
    let queues := (boxes calleeBox).incoming.queues
    let calleeMsg :=
      (boxes calleeBox).incoming.messages (uvisorPoolQueueTryDequeueFirst queues .done).1
    calleeMsg.otherBoxId = b ∧ uvisorResultSlot calleeMsg.matchCookie = slot ∧
      ((boxes b).outgoing.messages slot).state = .sent ∧
      ((boxes b).outgoing.messages slot).otherBoxId = calleeBox ∧
      ((boxes b).outgoing.messages slot).matchCookie = calleeMsg.matchCookie := by
  unfold completion at h
  dsimp only at h ⊢
  split at h
  · cases h
  · split at h
    · cases h
    · rename_i hrange
      split at h
      · rename_i hacc
        obtain ⟨hb, hslot⟩ := Prod.mk.inj (Option.some.inj h)
        rw [hb, hslot] at hacc
        simp only [acceptsResult, Bool.and_eq_true, decide_eq_true_eq] at hacc
        obtain ⟨⟨⟨-, hother⟩, hstate⟩, hcookie⟩ := hacc
        exact ⟨by omega, hslot, hstate, hother, hcookie⟩
      · cases h

/-- A finished message that passes the checks completes a call. -/
theorem completion_accepts {calleeSlot : ℕ}
    (hslot : (uvisorPoolQueueTryDequeueFirst (boxes calleeBox).incoming.queues .done).1 =
      calleeSlot)
    (hnum : ¬(boxes calleeBox).incoming.queues.pool.num ≤ calleeSlot)
    (hrange : ¬(((boxes calleeBox).incoming.messages calleeSlot).otherBoxId < 0 ∨
      (sys.boxCount : ℤ) ≤ ((boxes calleeBox).incoming.messages calleeSlot).otherBoxId))
    (hacc : acceptsResult sys calleeBox
      ((boxes calleeBox).incoming.messages calleeSlot).otherBoxId.toNat
      (uvisorResultSlot ((boxes calleeBox).incoming.messages calleeSlot).matchCookie)
      ((boxes calleeBox).incoming.messages calleeSlot) boxes = true) :
    completion sys calleeBox boxes =
      some (((boxes calleeBox).incoming.messages calleeSlot).otherBoxId.toNat,
        uvisorResultSlot ((boxes calleeBox).incoming.messages calleeSlot).matchCookie) := by
  subst hslot
  simp only [completion, if_neg hnum, if_neg hrange, if_pos hacc]

/-- What the pass does to all boxes, told from the memory before and after. -/
structure Drained (sys : Platform) (calleeBox : ℕ) (boxes boxes' : Boxes) : Prop where
  /-- Incoming sides of other boxes. -/
  incoming : ∀ b, b ≠ calleeBox → (boxes' b).incoming = (boxes b).incoming
  /-- Function groups. -/
  fnGroups : ∀ b, (boxes' b).fnGroups = (boxes b).fnGroups
  /-- Counters. -/
  resultCounter : ∀ b, (boxes' b).resultCounter = (boxes b).resultCounter
  /-- Outgoing queues. -/
  queues : ∀ b, (boxes' b).outgoing.queues = (boxes b).outgoing.queues
  /-- Messages that are not completed. -/
  others : ∀ b slot, completion sys calleeBox boxes ≠ some (b, slot) →
    (boxes' b).outgoing.messages slot = (boxes b).outgoing.messages slot
  /-- The message that is completed. -/
  completed : ∀ b slot, completion sys calleeBox boxes = some (b, slot) →
    Completes calleeBox boxes b slot ((boxes' b).outgoing.messages slot)

/-- Dequeuing a finished message does not change whether it is accepted. -/
theorem acceptsResult_setIncoming (q : PoolQueues IncomingName) (b slot : ℕ) (msg : Message) :
    acceptsResult sys calleeBox b slot msg (boxes.setIncoming calleeBox q) =
      acceptsResult sys calleeBox b slot msg boxes := by
  simp [acceptsResult]

theorem setIncoming_of_ne (q : PoolQueues IncomingName) {b c : ℕ} (h : c ≠ b) :
    (boxes.setIncoming b q c).incoming = (boxes c).incoming := by
  simp [Boxes.setIncoming, h]

theorem setIncomingMessage_of_ne (slot : ℕ) (msg : Message) {b c : ℕ} (h : c ≠ b) :
    (boxes.setIncomingMessage b slot msg c).incoming = (boxes c).incoming := by
  simp [Boxes.setIncomingMessage, h]

/-- What completing a call writes. -/
theorem complete_writes {calleeSlot b slot : ℕ} {boxes' : Boxes}
    (h : complete calleeBox calleeSlot b slot boxes = .next boxes' ∨
      complete calleeBox calleeSlot b slot boxes = .stop boxes') :
    (∀ c, c ≠ calleeBox → (boxes' c).incoming = (boxes c).incoming) ∧
      (∀ c, (boxes' c).fnGroups = (boxes c).fnGroups ∧
        (boxes' c).resultCounter = (boxes c).resultCounter ∧
        (boxes' c).outgoing.queues = (boxes c).outgoing.queues) ∧
      (∀ c s, ¬(c = b ∧ s = slot) →
        (boxes' c).outgoing.messages s = (boxes c).outgoing.messages s) ∧
      ∃ count, (boxes' b).outgoing.messages slot =
          {(boxes b).outgoing.messages slot with
            result := ((boxes calleeBox).incoming.messages calleeSlot).result
            state := .done
            semaphore := count} ∧
        (count = ((boxes b).outgoing.messages slot).semaphore ∨
          count = semaphorePost ((boxes b).outgoing.messages slot).semaphore) := by
  unfold complete at h
  dsimp only at h
  split at h
  · rcases h with h | h <;> cases h
    refine ⟨fun c hc => ?_, fun c => by simp, fun c s hs => by simp [hs],
      ((boxes b).outgoing.messages slot).semaphore, by simp, .inl rfl⟩
    rw [setIncoming_of_ne _ hc, setOutgoingMessage_incoming, setIncomingMessage_of_ne _ _ hc]
  · rcases h with h | h <;> cases h
    refine ⟨fun c hc => ?_, fun c => by simp, fun c s hs => by simp [hs],
      semaphorePost ((boxes b).outgoing.messages slot).semaphore, by simp, .inr rfl⟩
    rw [setOutgoingMessage_incoming, setIncoming_of_ne _ hc, setOutgoingMessage_incoming,
      setIncomingMessage_of_ne _ _ hc]

/-- What a pass writes, for any contents of the memory. -/
theorem drainResultBody_drained {boxes' : Boxes}
    (h : drainResultBody sys calleeBox boxes = .next boxes' ∨
      drainResultBody sys calleeBox boxes = .stop boxes') :
    Drained sys calleeBox boxes boxes' := by
  have hset : ∀ c, c ≠ calleeBox → ∀ q, (boxes.setIncoming calleeBox q c).incoming =
      (boxes c).incoming := fun c hc q => setIncoming_of_ne q hc
  unfold drainResultBody at h
  dsimp only at h
  by_cases hnum : (boxes calleeBox).incoming.queues.pool.num ≤
      (uvisorPoolQueueTryDequeueFirst (boxes calleeBox).incoming.queues .done).1
  · have hnone : completion sys calleeBox boxes = none := by
      simp only [completion, if_pos hnum]
    rw [if_pos hnum] at h
    rcases h with h | h <;> cases h
    exact ⟨fun c hc => hset c hc _, fun c => by simp, fun c => by simp, fun c => by simp,
      fun b slot _ => by simp, fun b slot hc => by rw [hnone] at hc; cases hc⟩
  · rw [if_neg hnum] at h
    simp only [setIncoming_messages, acceptsResult_setIncoming] at h
    split at h
    · rcases h with h | h <;> cases h
    · rename_i hrange
      split at h
      · rename_i hacc
        have hsome := completion_accepts rfl hnum hrange hacc
        obtain ⟨hincoming, hrest, hothers, count, hmsg, hcount⟩ := complete_writes h
        refine ⟨fun c hc => (hincoming c hc).trans (hset c hc _),
          fun c => (hrest c).1.trans (by simp), fun c => (hrest c).2.1.trans (by simp),
          fun c => (hrest c).2.2.trans (by simp), fun b slot hne => ?_, fun b slot hc => ?_⟩
        · refine (hothers b slot ?_).trans (by simp)
          rintro ⟨rfl, rfl⟩
          exact hne hsome
        · have hchecks := completion_some hc
          rw [hsome] at hc
          obtain ⟨rfl, rfl⟩ := Prod.mk.inj (Option.some.inj hc)
          obtain ⟨hother, hslot, hstate, hcallee, hcookie⟩ := hchecks
          refine ⟨hstate, hcallee, hcookie, hother, hslot, count, ?_, ?_⟩
          · rw [hmsg]
            simp
          · simpa using hcount
      · rename_i hacc
        have hnone : completion sys calleeBox boxes = none := by
          simp only [completion, if_neg hnum, if_neg hrange, if_neg hacc]
        rcases h with h | h <;> cases h
        exact ⟨fun c hc => hset c hc _, fun c => by simp, fun c => by simp, fun c => by simp,
          fun b slot _ => by simp, fun b slot hc => by rw [hnone] at hc; cases hc⟩

/-- In its own box, completing a call writes the entry that is freed and the
finished message. -/
theorem complete_home {calleeSlot b slot : ℕ} {boxes' : Boxes}
    (h : complete calleeBox calleeSlot b slot boxes = .next boxes' ∨
      complete calleeBox calleeSlot b slot boxes = .stop boxes') :
    (∀ i ∉ freeEntries (boxes calleeBox).incoming.queues calleeSlot,
        (boxes' calleeBox).incoming.queues.pool.managementArray i =
          (boxes calleeBox).incoming.queues.pool.managementArray i) ∧
      ∀ s, s ≠ calleeSlot →
        (boxes' calleeBox).incoming.messages s = (boxes calleeBox).incoming.messages s := by
  unfold complete at h
  dsimp only at h
  split at h
  · rcases h with h | h <;> cases h
    exact ⟨fun i hi => by simpa using free_entry hi, fun s hs => by simp [hs]⟩
  · rcases h with h | h <;> cases h
    exact ⟨fun i hi => by simpa using free_entry hi, fun s hs => by simp [hs]⟩

/-- In its own box, a pass writes no management entry but the listed ones, and
no message but the finished one. -/
theorem drainResultBody_home {boxes' : Boxes}
    (h : drainResultBody sys calleeBox boxes = .next boxes' ∨
      drainResultBody sys calleeBox boxes = .stop boxes') :
    let queues := (boxes calleeBox).incoming.queues
    let dequeued := uvisorPoolQueueTryDequeueFirst queues .done
    (∀ i ∉ dequeueFirstEntries queues .done,
      (completion sys calleeBox boxes ≠ none → i ∉ freeEntries dequeued.2 dequeued.1) →
        (boxes' calleeBox).incoming.queues.pool.managementArray i =
          queues.pool.managementArray i) ∧
      ∀ s, (completion sys calleeBox boxes ≠ none → s ≠ dequeued.1) →
        (boxes' calleeBox).incoming.messages s = (boxes calleeBox).incoming.messages s := by
  dsimp only
  unfold drainResultBody at h
  dsimp only at h
  split at h
  · rcases h with h | h <;> cases h
    exact ⟨fun i hi _ => by simpa using dequeueFirst_entry hi, fun s _ => by simp⟩
  · rename_i hnum
    simp only [setIncoming_messages, acceptsResult_setIncoming] at h
    split at h
    · rcases h with h | h <;> cases h
    · rename_i hrange
      split at h
      · rename_i hacc
        have hcompletes : completion sys calleeBox boxes ≠ none := by
          rw [completion_accepts rfl hnum hrange hacc]
          simp
        obtain ⟨hentries, hmessages⟩ := complete_home h
        simp only [setIncoming_queues, if_true] at hentries
        exact ⟨fun i hi hfree => (hentries i (hfree hcompletes)).trans (dequeueFirst_entry hi),
          fun s hs => (hmessages s (hs hcompletes)).trans (by simp)⟩
      · rcases h with h | h <;> cases h
        exact ⟨fun i hi _ => by simpa using dequeueFirst_entry hi, fun s _ => by simp⟩

/-- For any contents of the memory, a pass changes another box by completing
at most one message. -/
theorem Drained.authentic {boxes' : Boxes} (h : Drained sys calleeBox boxes boxes') {b : ℕ}
    (hb : b ≠ calleeBox) : Authentic sys calleeBox boxes b boxes' := by
  refine ⟨h.incoming b hb, h.fnGroups b, h.resultCounter b, h.queues b, fun slot => ?_⟩
  by_cases hc : completion sys calleeBox boxes = some (b, slot)
  · exact .inr ⟨hc, h.completed b slot hc⟩
  · exact .inl (h.others b slot hc)

/-- A pass writes nothing else into other boxes exactly if its links and its
array do not lead there. -/
theorem passSpares_iff : PassSpares sys calleeBox boxes ↔ StaysHome sys calleeBox boxes := by
  constructor
  · rintro ⟨hplaces, -⟩
    refine ⟨fun hl hhead => ?_, fun hl hhead htail => ?_, fun hc => ⟨?_, fun slot hslot => ?_⟩⟩
    · refine hplaces _ (List.mem_append_left _ (List.mem_map_of_mem ?_))
      by_cases htail : ((boxes calleeBox).incoming.queues.queue .done).head =
          ((boxes calleeBox).incoming.queues.queue .done).tail
      · simp [dequeueFirstEntries, hl, hhead, ← htail]
      · simp [dequeueFirstEntries, hl, hhead, htail]
    · refine hplaces _ (List.mem_append_left _ (List.mem_map_of_mem ?_))
      simp [dequeueFirstEntries, hl, hhead, htail]
    · refine hplaces _ (List.mem_append_right _ ?_)
      rw [if_neg hc]
      exact List.mem_cons_self
    · refine hplaces _ (List.mem_append_right _ ?_)
      rw [if_neg hc]
      exact List.mem_cons_of_mem _ (List.mem_map_of_mem hslot)
  · intro h
    refine ⟨fun p hp => ?_, fun boxes' hbody b hb => (drainResultBody_drained hbody).authentic hb⟩
    rcases List.mem_append.mp hp with hp | hp
    · obtain ⟨slot, hslot, rfl⟩ := List.mem_map.mp hp
      unfold dequeueFirstEntries at hslot
      dsimp only at hslot
      split at hslot
      · cases hslot
      · rename_i hfree
        rw [not_or, Bool.not_eq_true] at hfree
        split at hslot
        · obtain rfl := List.mem_singleton.mp hslot
          exact h.entry hfree.1 hfree.2
        · rename_i htail
          rcases List.mem_pair.mp hslot with rfl | rfl
          · exact h.link hfree.1 hfree.2 htail
          · exact h.entry hfree.1 hfree.2
    · split at hp
      · cases hp
      · rename_i hc
        obtain ⟨hstate, hentry⟩ := h.message hc
        rcases List.mem_cons.mp hp with rfl | hp
        · exact hstate
        · obtain ⟨slot, hslot, rfl⟩ := List.mem_map.mp hp
          exact hentry slot hslot

/-! ## A whole call -/

/-- The message is as it was, or was waiting for this box and has been
completed. -/
def AtMostCompleted (calleeBox : ℕ) (msg msg' : Message) : Prop :=
  msg' = msg ∨ msg.state = .sent ∧ msg.otherBoxId = calleeBox ∧
    ∃ result count, msg' = {msg with result := result, state := .done, semaphore := count}

/-- A completed message is not completed again. -/
theorem AtMostCompleted.trans {msg msg' msg'' : Message}
    (h : AtMostCompleted calleeBox msg msg') (h' : AtMostCompleted calleeBox msg' msg'') :
    AtMostCompleted calleeBox msg msg'' := by
  rcases h' with rfl | ⟨hstate, hother, hwritten⟩
  · exact h
  · rcases h with rfl | ⟨-, -, result, count, rfl⟩
    · exact .inr ⟨hstate, hother, hwritten⟩
    · cases hstate

/-- One pass completes a message at most. -/
theorem Drained.atMostCompleted {boxes' : Boxes} (h : Drained sys calleeBox boxes boxes')
    (b slot : ℕ) : AtMostCompleted calleeBox ((boxes b).outgoing.messages slot)
      ((boxes' b).outgoing.messages slot) := by
  by_cases hc : completion sys calleeBox boxes = some (b, slot)
  · obtain ⟨hstate, hother, -, -, -, count, hmsg, -⟩ := h.completed b slot hc
    exact .inr ⟨hstate, hother, _, count, hmsg⟩
  · exact .inl (h.others b slot hc)

/-- For any contents of the memory, a call that returns has left the outgoing
queues of all boxes alone, and has completed only messages that were waiting
for its box. -/
theorem drainResultQueue_outgoing {fuel : ℕ} {boxes' : Boxes}
    (h : drainResultQueue sys calleeBox fuel boxes = some boxes') (b : ℕ) :
    (boxes' b).outgoing.queues = (boxes b).outgoing.queues ∧
      ∀ slot, AtMostCompleted calleeBox ((boxes b).outgoing.messages slot)
        ((boxes' b).outgoing.messages slot) := by
  unfold drainResultQueue at h
  dsimp only at h
  split at h
  · cases h
    exact ⟨rfl, fun slot => .inl rfl⟩
  · obtain ⟨last, hvisits, hstop⟩ := visits_of_iterate h
    have hlast : (last b).outgoing.queues = (boxes b).outgoing.queues ∧
        ∀ slot, AtMostCompleted calleeBox ((boxes b).outgoing.messages slot)
          ((last b).outgoing.messages slot) := by
      refine hvisits.invariant (fun st => (st b).outgoing.queues = (boxes b).outgoing.queues ∧
        ∀ slot, AtMostCompleted calleeBox ((boxes b).outgoing.messages slot)
          ((st b).outgoing.messages slot)) ⟨rfl, fun slot => .inl rfl⟩ ?_
      rintro st st' ⟨hqueues, hmessages⟩ hnext
      have hpass := drainResultBody_drained (.inl hnext)
      exact ⟨(hpass.queues b).trans hqueues,
        fun slot => (hmessages slot).trans (hpass.atMostCompleted b slot)⟩
    have hpass := drainResultBody_drained (.inr hstop)
    exact ⟨(hpass.queues b).trans hlast.1,
      fun slot => (hlast.2 slot).trans (hpass.atMostCompleted b slot)⟩

variable (sys calleeBox boxes)

/-- No pass of a call of drain_result_queue on a queue that passes the
validation writes anything else into other boxes. -/
def DrainSpares : Prop :=
  isValidQueue sys (sys.incomingQueue .done calleeBox) (boxes calleeBox).incoming.queues .done
      calleeBox = true →
    ∀ st, Visits (drainResultBody sys calleeBox) boxes st → PassSpares sys calleeBox st

/-- In every pass of the call, the links and the array of the done queue lead
nowhere into the memory of other boxes. -/
def DrainStaysHome : Prop :=
  isValidQueue sys (sys.incomingQueue .done calleeBox) (boxes calleeBox).incoming.queues .done
      calleeBox = true →
    ∀ st, Visits (drainResultBody sys calleeBox) boxes st → StaysHome sys calleeBox st

variable {sys calleeBox boxes}

theorem drainSpares_iff : DrainSpares sys calleeBox boxes ↔ DrainStaysHome sys calleeBox boxes :=
  forall_congr' fun _ => forall₂_congr fun _ _ => passSpares_iff

end Passes

/-! ## A stray link -/

/-- A done queue at the end of its box that holds slot 200 of 8 slots. -/
def strayQueues : PoolQueues IncomingName :=
  let entry : Entry := ⟨slotInvalid, slotIsDequeued⟩
  ⟨⟨poolMagic, 0x20001400, messageSize, 8, 8, slotInvalid, false, fun _ => entry⟩,
    fun _ => ⟨poolQueueMagic, 200, 200, 0x20001FE0⟩⟩

/-- The small system with this queue in box 1. -/
def strayBoxes : Boxes :=
  bootedBoxes.setIncoming 1 strayQueues

end Uvisor.RpcFootprint
