import Uvisor.RpcSystem

/-!
# Passes of the monitor while threads hold locks

A lock held by an interrupted thread makes a pass stop when it is the lock of
the queue being drained, and makes it put the message back when it is the lock
of the callee. Every other lock is not looked at, so that the pass does what
it does with all locks free. A pass over the done queue hands one result to
its caller.
-/

namespace Uvisor.RpcPasses

open PoolQueue PoolInvariant PoolOperations Rpc RpcApi RpcDescription RpcDrain RpcSystem Execution
  QueueRotation

/-! ## Memory with locks -/

section Locked

variable (locks : Locks) (acquired : Bool) (boxes : Boxes) (b : ℕ)

@[simp] theorem set_outgoing_messages :
    (locks.set acquired boxes b).outgoing.messages = (boxes b).outgoing.messages := rfl

@[simp] theorem set_incoming_messages :
    (locks.set acquired boxes b).incoming.messages = (boxes b).incoming.messages := rfl

@[simp] theorem set_fnGroups :
    (locks.set acquired boxes b).fnGroups = (boxes b).fnGroups := rfl

@[simp] theorem set_outgoing_header :
    header (locks.set acquired boxes b).outgoing.queues = header (boxes b).outgoing.queues := by
  simp only [Locks.set]
  split <;> rfl

@[simp] theorem set_incoming_header :
    header (locks.set acquired boxes b).incoming.queues = header (boxes b).incoming.queues := by
  simp only [Locks.set]
  split <;> rfl

theorem set_outgoing_free (h : locks.outgoing b = false) :
    (locks.set acquired boxes b).outgoing.queues = (boxes b).outgoing.queues := by
  simp [Locks.set, h]

theorem set_incoming_free (h : locks.incoming b = false) :
    (locks.set acquired boxes b).incoming.queues = (boxes b).incoming.queues := by
  simp [Locks.set, h]

theorem set_outgoing_held (h : locks.outgoing b = true) :
    (locks.set acquired boxes b).outgoing.queues = (boxes b).outgoing.queues.setLock acquired := by
  simp [Locks.set, h]

theorem set_incoming_held (h : locks.incoming b = true) :
    (locks.set acquired boxes b).incoming.queues = (boxes b).incoming.queues.setLock acquired := by
  simp [Locks.set, h]

theorem set_setOutgoing (q : PoolQueues Unit) (h : locks.outgoing b = false) :
    (locks.set acquired boxes).setOutgoing b q = locks.set acquired (boxes.setOutgoing b q) := by
  funext c
  by_cases hc : c = b
  · subst hc
    simp [Locks.set, Boxes.setOutgoing, h]
  · simp [Locks.set, Boxes.setOutgoing, hc]

theorem set_setIncoming (q : PoolQueues IncomingName) (h : locks.incoming b = false) :
    (locks.set acquired boxes).setIncoming b q = locks.set acquired (boxes.setIncoming b q) := by
  funext c
  by_cases hc : c = b
  · subst hc
    simp [Locks.set, Boxes.setIncoming, h]
  · simp [Locks.set, Boxes.setIncoming, hc]

theorem set_setOutgoingMessage (slot : ℕ) (msg : Message) :
    (locks.set acquired boxes).setOutgoingMessage b slot msg =
      locks.set acquired (boxes.setOutgoingMessage b slot msg) := by
  funext c
  by_cases hc : c = b
  · subst hc
    simp [Locks.set, Boxes.setOutgoingMessage]
  · simp [Locks.set, Boxes.setOutgoingMessage, hc]

theorem set_setIncomingMessage (slot : ℕ) (msg : Message) :
    (locks.set acquired boxes).setIncomingMessage b slot msg =
      locks.set acquired (boxes.setIncomingMessage b slot msg) := by
  funext c
  by_cases hc : c = b
  · subst hc
    simp [Locks.set, Boxes.setIncomingMessage]
  · simp [Locks.set, Boxes.setIncomingMessage, hc]

theorem set_setFnGroups (groups : FnGroups) :
    (locks.set acquired boxes).setFnGroups b groups =
      locks.set acquired (boxes.setFnGroups b groups) := by
  funext c
  by_cases hc : c = b
  · subst hc
    simp [Locks.set, Boxes.setFnGroups]
  · simp [Locks.set, Boxes.setFnGroups, hc]

end Locked

section Passes

variable {sys : Platform} {boxes : Boxes} {d : ℕ → BoxLists}

/-- Locks that were free and have been taken are given back. -/
theorem set_false_set_true (h : Describes sys boxes d) (locks : Locks) {b : ℕ}
    (hb : b < sys.boxCount) : locks.set false (locks.set true boxes) b = boxes b := by
  have hout := unlock_setLock (h b hb).outgoing_lock true
  have hin := unlock_setLock (h b hb).incoming_lock true
  simp only [PoolQueues.unlock, uvisorSpinUnlock] at hout hin
  cases ho : locks.outgoing b <;> cases hi : locks.incoming b <;> simp [Locks.set, ho, hi, hout, hin]

/-- Held locks do not change where messages go. -/
theorem destination_set (sys : Platform) (boxes : Boxes) (locks : Locks) (caller slot : ℕ) :
    destination sys (locks.set true boxes) caller slot = destination sys boxes caller slot := by
  unfold destination
  dsimp only
  rw [set_outgoing_messages,
    isValidQueue_congr sys _ _ (congrFun (set_incoming_header locks true boxes _) .todo)]

/-! ## Passes over outgoing messages -/

variable {locks : Locks} {caller slot : ℕ}

/-- The delivery into a slot looks at no lock but the callee's. -/
theorem deliver_set {callee fresh : ℕ} {firstSlot : ℤ} {st : DrainState}
    (hi : locks.incoming callee = false)
    (hqueues : (uvisorPoolQueueTryEnqueue (boxes callee).incoming.queues .todo fresh).1 = 0)
    (h : deliver sys caller callee slot fresh firstSlot boxes = .next st) :
    deliver sys caller callee slot fresh firstSlot (locks.set true boxes) =
      .next ⟨locks.set true st.boxes, st.firstSlot⟩ := by
  unfold deliver at h ⊢
  simp only [set_outgoing_messages, set_incoming_messages, set_setIncomingMessage,
    set_setOutgoingMessage, set_incoming_free locks true _ callee hi,
    set_setIncoming locks true _ callee _ hi, set_fnGroups, set_setFnGroups,
    setOutgoingMessage_incoming, setIncomingMessage_queues, hqueues, ne_eq, not_true_eq_false,
    if_false] at h ⊢
  split at h
  · cases h
  · cases h
    rfl

/-- A message to a callee with room is delivered when the callee's lock is
free. -/
theorem forward_set_room (firstSlot : ℤ) {callee fresh : ℕ} {free : List ℕ}
    (h : Describes sys boxes d) (hdest : destination sys boxes caller slot = some callee)
    (hfree : (d callee).inFree = fresh :: free) (hi : locks.incoming callee = false)
    {boxes' : Boxes} (hf : forward sys caller slot firstSlot boxes = .next ⟨boxes', firstSlot⟩) :
    forward sys caller slot firstSlot (locks.set true boxes) =
      .next ⟨locks.set true boxes', firstSlot⟩ := by
  have hd := h callee (destination_callee hdest).2
  have hin := hd.incoming
  rw [hfree] at hin
  obtain ⟨hfresh, hrepr, hheld⟩ := tryAllocate_cons hin hd.incoming_lock
  have hlock : (uvisorPoolTryAllocate (boxes callee).incoming.queues).2.pool.spinlock = false := by
    rw [uvisorPoolTryAllocate_spinlock, hd.incoming_lock]
  have hbound : (uvisorPoolTryAllocate (boxes callee).incoming.queues).1 <
      (boxes callee).incoming.queues.pool.num := by
    rw [hfresh]
    exact hin.free_lt fresh (by simp)
  obtain ⟨hstatus, -⟩ := tryEnqueue_held hrepr hlock .todo hheld
  have hdest' := (destination_set sys boxes locks caller slot).trans hdest
  rw [forward_some hdest] at hf
  rw [forward_some hdest']
  simp only [set_incoming_free locks true boxes callee hi,
    set_setIncoming locks true boxes callee _ hi] at hf ⊢
  rw [if_pos hbound] at hf ⊢
  exact deliver_set hi (by simpa [hfresh] using hstatus) hf

/-- A message to a callee that is full or whose lock is held is put back. -/
theorem forward_set_busy (firstSlot : ℤ) {callee : ℕ} (h : Describes sys boxes d)
    (hdest : destination sys boxes caller slot = some callee) (ho : locks.outgoing caller = false)
    (hbusy : locks.incoming callee = true ∨ (d callee).inFree = []) :
    forward sys caller slot firstSlot (locks.set true boxes) =
      .next ⟨locks.set true (boxes.setOutgoing caller
        (putItBack (boxes caller).outgoing.queues () slot)), firstSlot⟩ := by
  have hd := h callee (destination_callee hdest).2
  have hnum := hd.incoming.num_lt
  have hfail : uvisorPoolTryAllocate (locks.set true boxes callee).incoming.queues =
      (slotInvalid, (locks.set true boxes callee).incoming.queues) := by
    cases hi : locks.incoming callee with
    | true =>
      rw [set_incoming_held locks true boxes callee hi]
      exact withTrylock_of_held rfl
    | false =>
      have hin := hd.incoming
      rw [hbusy.resolve_left (by simp [hi])] at hin
      rw [set_incoming_free locks true boxes callee hi]
      exact tryAllocate_nil hin hd.incoming_lock
  have hfull : ¬slotInvalid < (locks.set true boxes callee).incoming.queues.pool.num := by
    have hsame : (locks.set true boxes callee).incoming.queues.pool.num =
      (boxes callee).incoming.queues.pool.num :=
      num_of_header .todo (set_incoming_header locks true boxes callee)
    simp only [poolMaxValid, slotInvalid] at *
    omega
  rw [forward_some ((destination_set sys boxes locks caller slot).trans hdest), hfail]
  dsimp only
  rw [if_neg hfull, setIncoming_self, set_outgoing_free locks true boxes caller ho,
    set_setOutgoing locks true boxes caller _ ho]

/-- Why a message that is not the remembered one fares as it does while locks
are held. -/
def LockedCause (sys : Platform) (locks : Locks) (caller slot : ℕ) (boxes : Boxes)
    (d : ℕ → BoxLists) : Fate → Prop
  | .delivered => ∃ callee, destination sys boxes caller slot = some callee ∧
      locks.incoming callee = false ∧ (d callee).inFree ≠ []
  | .dropped => destination sys boxes caller slot = none
  | .kept => ∃ callee, destination sys boxes caller slot = some callee ∧
      (locks.incoming callee = true ∨ (d callee).inFree = [])

/-- What a pass over the outgoing messages of a box does while locks are held,
with the lists after it. -/
inductive MessagePass (sys : Platform) (locks : Locks) (caller : ℕ) (boxes : Boxes)
    (d : ℕ → BoxLists) (firstSlot : ℤ) (boxes' : Boxes) (d' : ℕ → BoxLists) :
    Flow DrainState → Prop where
  /-- The queue is empty or locked. -/
  | idle (why : locks.outgoing caller = true ∨ (d caller).out = [])
    (same : boxes' = boxes) (lists : d' = d) :
    MessagePass sys locks caller boxes d firstSlot boxes' d'
      (.stop ⟨locks.set true boxes', firstSlot⟩)
  /-- The remembered message has come round and goes back. -/
  | cameRound (slot : ℕ) (rest : List ℕ) (head : (d caller).out = slot :: rest)
    (unlocked : locks.outgoing caller = false) (seen : firstSlot = slot)
    (fared : Fared sys caller slot rest boxes boxes' d d' .kept) :
    MessagePass sys locks caller boxes d firstSlot boxes' d'
      (.stop ⟨locks.set true boxes', firstSlot⟩)
  /-- The first message fares in one of three ways. -/
  | handled (slot : ℕ) (rest : List ℕ) (fate : Fate) (head : (d caller).out = slot :: rest)
    (unlocked : locks.outgoing caller = false) (unseen : firstSlot ≠ slot)
    (fared : Fared sys caller slot rest boxes boxes' d d' fate)
    (why : LockedCause sys locks caller slot boxes d fate) :
    MessagePass sys locks caller boxes d firstSlot boxes' d'
      (.next ⟨locks.set true boxes', remembered firstSlot slot⟩)

/-- Every pass over the outgoing messages of a box keeps the queues well formed
and does one of these things. -/
theorem drainMessageBody_pass (h : Describes sys boxes d) (hc : caller < sys.boxCount)
    (firstSlot : ℤ) (locks : Locks) :
    ∃ boxes' d', Describes sys boxes' d' ∧ MessagePass sys locks caller boxes d firstSlot boxes' d'
      (drainMessageBody sys caller ⟨locks.set true boxes, firstSlot⟩) := by
  have hd := h caller hc
  have hnum := hd.outgoing.num_lt
  cases ho : locks.outgoing caller with
  | true =>
    have hfail : uvisorPoolQueueTryDequeueFirst (locks.set true boxes caller).outgoing.queues () =
        (slotInvalid, (locks.set true boxes caller).outgoing.queues) := by
      rw [set_outgoing_held locks true boxes caller ho]
      exact withTrylock_of_held rfl
    have hend : (locks.set true boxes caller).outgoing.queues.pool.num ≤ slotInvalid := by
      have hsame : (locks.set true boxes caller).outgoing.queues.pool.num =
        (boxes caller).outgoing.queues.pool.num :=
        num_of_header () (set_outgoing_header locks true boxes caller)
      simp only [poolMaxValid, slotInvalid] at *
      omega
    have hbody : drainMessageBody sys caller ⟨locks.set true boxes, firstSlot⟩ =
        .stop ⟨locks.set true boxes, firstSlot⟩ := by
      unfold drainMessageBody
      simp only [hfail, if_pos hend, setOutgoing_self]
    rw [hbody]
    exact ⟨boxes, d, h, .idle (Or.inl ho) rfl rfl⟩
  | false =>
    have hqueues := set_outgoing_free locks true boxes caller ho
    cases hq : (d caller).out with
    | nil =>
      have hempty := tryDequeueFirst_nil (q := ()) hd.outgoing hd.outgoing_lock hq
      have hend : (boxes caller).outgoing.queues.pool.num ≤ slotInvalid := by
        simp only [poolMaxValid, slotInvalid] at *
        omega
      have hbody : drainMessageBody sys caller ⟨locks.set true boxes, firstSlot⟩ =
          .stop ⟨locks.set true boxes, firstSlot⟩ := by
        unfold drainMessageBody
        simp only [hqueues, hempty, if_pos hend]
        rw [← hqueues, setOutgoing_self]
      rw [hbody]
      exact ⟨boxes, d, h, .idle (Or.inr hq) rfl rfl⟩
    | cons slot rest =>
      have hdequeued : dequeuedBoxes caller (locks.set true boxes) =
          locks.set true (dequeuedBoxes caller boxes) := by
        rw [dequeuedBoxes, hqueues, set_setOutgoing locks true boxes caller _ ho]
        rfl
      have hbody : drainMessageBody sys caller ⟨locks.set true boxes, firstSlot⟩ =
          if firstSlot = slot then
            .stop ⟨(dequeuedBoxes caller (locks.set true boxes)).setOutgoing caller
              (putItBack (dequeuedBoxes caller (locks.set true boxes) caller).outgoing.queues ()
                slot), firstSlot⟩
          else forward sys caller slot (remembered firstSlot slot)
            (dequeuedBoxes caller (locks.set true boxes)) := by
        apply pass_dequeued
        · rw [hqueues]
          exact (dequeue_first h hc hq).1
        · rw [hqueues]
          exact hd.outgoing.lists_lt () slot (by simp [hq])
      rw [hdequeued] at hbody
      obtain ⟨hds, -, -⟩ := dequeuedBoxes_spec h hc hq
      have hdest := destination_dequeuedBoxes sys caller boxes slot
      obtain ⟨hback, hkept⟩ := putBack_spec h hc hq
      have hset : (locks.set true (dequeuedBoxes caller boxes)).setOutgoing caller
          (putItBack (locks.set true (dequeuedBoxes caller boxes) caller).outgoing.queues () slot) =
          locks.set true ((dequeuedBoxes caller boxes).setOutgoing caller
            (putItBack (dequeuedBoxes caller boxes caller).outgoing.queues () slot)) := by
        rw [set_outgoing_free locks true _ caller ho, set_setOutgoing locks true _ caller _ ho]
      by_cases hseen : firstSlot = slot
      · rw [hbody, if_pos hseen, hset]
        exact ⟨_, _, hback, .cameRound slot rest hq ho hseen hkept⟩
      · rw [if_neg hseen] at hbody
        rw [hbody]
        cases hcallee : destination sys boxes caller slot with
        | none =>
          rw [hcallee] at hdest
          rw [forward_none ((destination_set sys _ locks caller slot).trans hdest)]
          exact ⟨_, _, hds, .handled slot rest .dropped hq ho hseen
            (dequeuedBoxes_dropped h hc hq) hcallee⟩
        | some callee =>
          rw [hcallee] at hdest
          by_cases hbusy : locks.incoming callee = true ∨ (d callee).inFree = []
          · rw [forward_set_busy _ hds hdest ho (by simpa using hbusy)]
            exact ⟨_, _, hback, .handled slot rest .kept hq ho hseen hkept ⟨callee, hcallee, hbusy⟩⟩
          · rw [not_or, Bool.not_eq_true] at hbusy
            obtain ⟨fresh, free, hroom⟩ := List.exists_cons_of_ne_nil hbusy.2
            obtain ⟨boxes', hforward, hd', hfared⟩ := forward_delivers h hc hq hcallee hroom
              (remembered firstSlot slot)
            rw [forward_set_room _ hds hdest (by simpa using hroom) hbusy.1 hforward]
            exact ⟨_, _, hd', .handled slot rest .delivered hq ho hseen hfared
              ⟨callee, hcallee, hbusy⟩⟩

/-- What a pass over the outgoing messages of a box does, whatever locks are
held: nothing, or one message fares in one of three ways. -/
theorem drainMessageBody_set (h : Describes sys boxes d) (hc : caller < sys.boxCount)
    (firstSlot : ℤ) (locks : Locks) :
    ∃ boxes' firstSlot' d',
      (drainMessageBody sys caller ⟨locks.set true boxes, firstSlot⟩ =
          .next ⟨locks.set true boxes', firstSlot'⟩ ∨
        drainMessageBody sys caller ⟨locks.set true boxes, firstSlot⟩ =
          .stop ⟨locks.set true boxes', firstSlot'⟩) ∧
      Describes sys boxes' d' ∧
      (boxes' = boxes ∧ d' = d ∨ ∃ slot rest fate, (d caller).out = slot :: rest ∧
        Fared sys caller slot rest boxes boxes' d d' fate ∧
        (fate = .delivered → destination sys boxes caller slot ≠ none)) := by
  obtain ⟨boxes', d', hd', hpass⟩ := drainMessageBody_pass h hc firstSlot locks
  generalize drainMessageBody sys caller ⟨locks.set true boxes, firstSlot⟩ = flow at hpass
  cases hpass with
  | idle why same lists => exact ⟨boxes', firstSlot, d', .inr rfl, hd', .inl ⟨same, lists⟩⟩
  | cameRound slot rest head unlocked seen fared =>
    exact ⟨boxes', firstSlot, d', .inr rfl, hd', .inr ⟨slot, rest, .kept, head, fared, by simp⟩⟩
  | handled slot rest fate head unlocked unseen fared why =>
    refine ⟨boxes', _, d', .inl rfl, hd', .inr ⟨slot, rest, fate, head, fared, ?_⟩⟩
    rintro rfl
    obtain ⟨callee, hcallee, -⟩ := why
    simp [hcallee]

/-! ## Passes over results -/

variable {callee : ℕ}

/-- A result is accepted or refused by the header of the caller's queue and the
caller's message. -/
theorem acceptsResult_congr {boxes' : Boxes} {calleeMsg : Message}
    (hheader : header (boxes' caller).outgoing.queues = header (boxes caller).outgoing.queues)
    (hmessages : (boxes' caller).outgoing.messages = (boxes caller).outgoing.messages) :
    acceptsResult sys callee caller slot calleeMsg boxes' =
      acceptsResult sys callee caller slot calleeMsg boxes := by
  unfold acceptsResult
  dsimp only
  rw [hmessages, isValidQueue_congr sys _ _ (congrFun hheader ())]

/-- A pass that finds the lock held or the done queue empty stops. -/
theorem drainResultBody_set_idle (h : Describes sys boxes d) (hc : callee < sys.boxCount)
    (hidle : locks.incoming callee = true ∨ (d callee).incoming .done = [])
    (accounts : ℕ → Account) :
    drainResultBody sys callee (locks.set true boxes) = .stop (locks.set true boxes) ∧
      resultWrite sys callee (locks.set true boxes) accounts = none := by
  have hd := h callee hc
  have hnum := hd.incoming.num_lt
  have hfail : uvisorPoolQueueTryDequeueFirst (locks.set true boxes callee).incoming.queues .done =
      (slotInvalid, (locks.set true boxes callee).incoming.queues) := by
    cases hi : locks.incoming callee with
    | true =>
      rw [set_incoming_held locks true boxes callee hi]
      exact withTrylock_of_held rfl
    | false =>
      rw [set_incoming_free locks true boxes callee hi]
      exact tryDequeueFirst_nil hd.incoming hd.incoming_lock (hidle.resolve_left (by simp [hi]))
  have hend : (locks.set true boxes callee).incoming.queues.pool.num ≤ slotInvalid := by
    have hsame : (locks.set true boxes callee).incoming.queues.pool.num =
      (boxes callee).incoming.queues.pool.num :=
      num_of_header .done (set_incoming_header locks true boxes callee)
    simp only [poolMaxValid, slotInvalid] at *
    omega
  unfold drainResultBody resultWrite
  dsimp only
  rw [hfail, if_pos hend, if_pos hend, setIncoming_self]
  exact ⟨rfl, rfl⟩

/-- What handing over a result writes, and that it writes nothing else but the
incoming queues of the callee. -/
structure HandedBack (callee calleeSlot caller slot : ℕ) (boxes boxes' : Boxes) : Prop where
  /-- The caller's message has the result, and its semaphore is posted to. -/
  message : (boxes' caller).outgoing.messages slot =
    {(boxes caller).outgoing.messages slot with
      result := ((boxes callee).incoming.messages calleeSlot).result
      state := .done
      semaphore := semaphorePost ((boxes caller).outgoing.messages slot).semaphore}
  /-- All other outgoing messages. -/
  outgoing : ∀ b s, ¬(b = caller ∧ s = slot) →
    (boxes' b).outgoing.messages s = (boxes b).outgoing.messages s
  /-- All other incoming messages. -/
  incoming : ∀ b s, ¬(b = callee ∧ s = calleeSlot) →
    (boxes' b).incoming.messages s = (boxes b).incoming.messages s
  /-- The outgoing queues. -/
  queues : ∀ b, (boxes' b).outgoing.queues = (boxes b).outgoing.queues
  /-- Headers of the incoming queues. -/
  header : ∀ b, header (boxes' b).incoming.queues = header (boxes b).incoming.queues
  /-- The function groups. -/
  fnGroups : ∀ b, (boxes' b).fnGroups = (boxes b).fnGroups
  /-- Counters for result tokens. -/
  resultCounter : ∀ b, (boxes' b).resultCounter = (boxes b).resultCounter

/-- Lists of the callee after the first result has been handed over. -/
def returning (d : ℕ → BoxLists) (callee calleeSlot : ℕ) (rest : List ℕ) : ℕ → BoxLists :=
  Function.update d callee {d callee with
    inFree := calleeSlot :: (d callee).inFree
    incoming := Function.update (d callee).incoming .done rest}

/-- A pass hands the first result over to a caller that accepts it. -/
theorem drainResultBody_set_accepts {calleeSlot : ℕ} {rest : List ℕ} (h : Describes sys boxes d)
    (hc : callee < sys.boxCount) (hi : locks.incoming callee = false)
    (hq : (d callee).incoming .done = calleeSlot :: rest) (hb : caller < sys.boxCount)
    (hother : ((boxes callee).incoming.messages calleeSlot).otherBoxId = caller)
    (hslot : uvisorResultSlot ((boxes callee).incoming.messages calleeSlot).matchCookie = slot)
    (hacc : acceptsResult sys callee caller slot ((boxes callee).incoming.messages calleeSlot)
      boxes = true) :
    ∃ boxes', drainResultBody sys callee (locks.set true boxes) = .next (locks.set true boxes') ∧
      Describes sys boxes' (returning d callee calleeSlot rest) ∧
      HandedBack callee calleeSlot caller slot boxes boxes' := by
  have hd := h callee hc
  obtain ⟨hfirst, hr, hheld⟩ := tryDequeueFirst_cons hd.incoming hd.incoming_lock hq
  have hlt : ¬(boxes callee).incoming.queues.pool.num ≤ calleeSlot :=
    Nat.not_le.mpr (hd.incoming.lists_lt .done calleeSlot (by simp [hq]))
  have hrange : ¬((caller : ℤ) < 0 ∨ (sys.boxCount : ℤ) ≤ caller) := by omega
  have hlock : (uvisorPoolQueueTryDequeueFirst
      (boxes callee).incoming.queues .done).2.pool.spinlock = false := by
    rw [uvisorPoolQueueTryDequeueFirst_spinlock, hd.incoming_lock]
  obtain ⟨hfreed, hfree⟩ := tryFree_held hr hlock hheld
  have hacc' : acceptsResult sys callee caller slot
      ((boxes callee).incoming.messages calleeSlot)
      (locks.set true (boxes.setIncoming callee
        (uvisorPoolQueueTryDequeueFirst (boxes callee).incoming.queues .done).2)) = true := by
    rw [← hacc]
    exact acceptsResult_congr (by simp) (by simp)
  have hnum : ¬(uvisorPoolQueueTryDequeueFirst
      (boxes callee).incoming.queues .done).2.pool.num ≤ calleeSlot := by
    rw [num_of_header .done (header_uvisorPoolQueueTryDequeueFirst _ _)]
    exact hlt
  unfold drainResultBody
  simp only [set_incoming_free locks true boxes callee hi, hfirst, if_neg hlt,
    set_setIncoming locks true boxes callee _ hi, set_incoming_messages, setIncoming_messages,
    hother, if_neg hrange, Int.toNat_natCast, hslot, hacc', if_true]
  unfold complete
  simp only [set_setIncomingMessage, set_setOutgoingMessage, set_incoming_messages,
    set_outgoing_messages, set_incoming_free locks true _ callee hi,
    set_setIncoming locks true _ callee _ hi, setOutgoingMessage_incoming, setIncomingMessage_queues,
    setIncoming_queues, if_true, hfreed, if_neg hnum]
  refine ⟨_, rfl, ?_, ?_⟩
  · have h₁ := h.setIncoming (b := callee) hr hlock
    have h₂ := h₁.setIncoming (b := callee) hfree (by simpa using hlock)
    rw [Function.update_self, Function.update_idem] at h₂
    refine h₂.congr (fun b => by simp) (fun b => ?_) (fun b => by simp)
    by_cases hbc : b = callee <;> simp [hbc]
  · refine ⟨by simp, fun b s hbs => by simp [hbs], fun b s hbs => by simp [hbs],
      fun b => by simp, fun b => ?_, fun b => by simp, fun b => by simp⟩
    by_cases hbc : b = callee
    · subst hbc
      simp
    · simp [hbc]

/-- The copy that such a pass makes. -/
theorem resultWrite_set_accepts {calleeSlot : ℕ} {rest : List ℕ} (h : Describes sys boxes d)
    (hc : callee < sys.boxCount) (hi : locks.incoming callee = false)
    (hq : (d callee).incoming .done = calleeSlot :: rest)
    (hother : ((boxes callee).incoming.messages calleeSlot).otherBoxId = caller)
    (hslot : uvisorResultSlot ((boxes callee).incoming.messages calleeSlot).matchCookie = slot)
    (hacc : acceptsResult sys callee caller slot ((boxes callee).incoming.messages calleeSlot)
      boxes = true) (accounts : ℕ → Account) :
    resultWrite sys callee (locks.set true boxes) accounts =
      some ⟨caller, slot, ((boxes callee).incoming.messages calleeSlot).matchCookie,
        (accounts caller).occupant slot,
        decide ((boxes caller).outgoing.queues.pool.prev slot = slotIsFree)⟩ := by
  have hd := h callee hc
  obtain ⟨hfirst, -, -⟩ := tryDequeueFirst_cons hd.incoming hd.incoming_lock hq
  have hlt : ¬(boxes callee).incoming.queues.pool.num ≤ calleeSlot :=
    Nat.not_le.mpr (hd.incoming.lists_lt .done calleeSlot (by simp [hq]))
  have hacc' : acceptsResult sys callee caller slot
      ((boxes callee).incoming.messages calleeSlot) (locks.set true boxes) = true := by
    rw [← hacc]
    exact acceptsResult_congr (by simp) (by simp)
  have hprev : (locks.set true boxes caller).outgoing.queues.pool.prev slot =
      (boxes caller).outgoing.queues.pool.prev slot := by
    simp only [Locks.set]
    split <;> rfl
  unfold resultWrite
  simp only [set_incoming_free locks true boxes callee hi, hfirst, if_neg hlt,
    set_incoming_messages, hother, Int.toNat_natCast, hslot, hacc', if_true, hprev]

/-- A pass that copies no result leaves all outgoing messages alone, and one
that does writes one message. -/
theorem drainResultBody_outgoing (accounts : ℕ → Account) {boxes' : Boxes}
    (h : drainResultBody sys callee boxes = .next boxes' ∨
      drainResultBody sys callee boxes = .stop boxes') (b s : ℕ)
    (hw : ∀ w, resultWrite sys callee boxes accounts = some w → ¬(b = w.box ∧ s = w.slot)) :
    (boxes' b).outgoing.messages s = (boxes b).outgoing.messages s := by
  unfold drainResultBody at h
  unfold resultWrite at hw
  dsimp only at h hw
  split at h
  · rcases h with h | h <;> cases h
    simp
  · rename_i hlt
    rw [if_neg hlt] at hw
    split at h
    · rcases h with h | h <;> cases h
    · have hsame : ∀ caller slot msg q,
          acceptsResult sys callee caller slot msg (boxes.setIncoming callee q) =
            acceptsResult sys callee caller slot msg boxes :=
        fun _ _ _ _ => acceptsResult_congr (by simp) (by simp)
      simp only [setIncoming_messages, hsame] at h
      split at h
      · rename_i hacc
        have hne := hw _ (by rw [if_pos hacc])
        unfold complete at h
        dsimp only at h
        split at h
        · rcases h with h | h <;> cases h
          simp [hne]
        · rcases h with h | h <;> cases h
          simp [hne]
      · rcases h with h | h <;> cases h
        simp

end Passes

end Uvisor.RpcPasses
