import Uvisor.RpcPasses
import Uvisor.RpcLibrary
import Uvisor.RotationOrder

/-!
# The order in which outgoing messages are delivered

A caller queues messages, the monitor drains its queue from time to time, and
everybody else may do anything in between that leaves the queue and the
gateways of its messages alone. Messages carry the time at which they were
queued. A drain tries them in queue order, but the first one that it put back
ends up behind all others.
-/

namespace Uvisor.MessageOrder

open PoolQueue PoolInvariant PoolOperations Rpc RpcApi RpcLibrary RpcDescription RpcDrain
  RpcPasses Execution RotationOrder
open RpcSystem (Locks)
open QueueRotation (Fate)

/-! ## The system -/

/-- Outgoing messages of a box in queue order. -/
def outgoingSlots (boxes : Boxes) (caller : ℕ) : List ℕ :=
  queueSlots (boxes caller).outgoing.queues ()

/-- Messages that wait for a handler in a box, in queue order. -/
def todoSlots (boxes : Boxes) (callee : ℕ) : List ℕ :=
  queueSlots (boxes callee).incoming.queues .todo

/-- The callee that the gateway of an outgoing message names. -/
def calleeOf (sys : Platform) (boxes : Boxes) (caller slot : ℕ) : ℤ :=
  calleeBoxId sys (sys.gateway ((boxes caller).outgoing.messages slot).gateway)

/-- The message that a pass has delivered: the first one, when there is more to
do for its callee. -/
def deliveredNow (sys : Platform) (caller : ℕ) (boxes boxes' : Boxes) : List ℕ :=
  (outgoingSlots boxes caller).head?.toList.filter fun slot =>
    let callee := (calleeOf sys boxes caller slot).toNat
    todoSlots boxes' callee ≠ todoSlots boxes callee

/-- State of the system. -/
structure State where
  /-- Memory of all boxes. -/
  boxes : Boxes
  /-- Time at which the message in each outgoing slot was queued. -/
  stamp : ℕ → ℕ
  /-- Number of messages queued so far. -/
  clock : ℕ
  /-- Delivered messages with callee and time, in order of delivery. -/
  delivered : List (ℤ × ℕ)
  /-- The remembered slot of the drain that is going on. -/
  drain : Option ℤ

/-- Steps of the system. -/
inductive Action where
  /-- The caller queues a message. -/
  | enqueue (slot : ℕ)
  /-- A drain begins. -/
  | drain
  /-- A pass of the drain. -/
  | pass
  /-- Anything else happens. -/
  | others (boxes : Boxes)

/-- A message in a slot with its callee and its time. -/
def State.entry (sys : Platform) (caller : ℕ) (st : State) (slot : ℕ) : ℤ × ℕ :=
  (calleeOf sys st.boxes caller slot, st.stamp slot)

/-- The state after a message has been queued. -/
def State.enqueued (st : State) (boxes : Boxes) (slot : ℕ) : State :=
  {st with
    boxes := boxes
    stamp := Function.update st.stamp slot st.clock
    clock := st.clock+1}

/-- The state after a pass. -/
def State.passed (sys : Platform) (caller : ℕ) (st : State) (boxes : Boxes) (drain : Option ℤ) :
    State :=
  {st with
    boxes := boxes
    delivered := st.delivered ++
      (deliveredNow sys caller st.boxes boxes).map (st.entry sys caller)
    drain := drain}

/-- One step. The monitor runs a drain to its end before anybody else runs. -/
def step (sys : Platform) (caller : ℕ) (st : State) : Action → Option State
  | .enqueue slot =>
    match st.drain with
    | none =>
      (enqueueOutgoing (st.boxes caller) slot).map fun rpc =>
        st.enqueued (Function.update st.boxes caller rpc) slot
    | some _ => none
  | .drain =>
    let queues := (st.boxes caller).outgoing.queues
    match st.drain with
    | none =>
      if isValidQueue sys (sys.outgoingQueue caller) queues () caller = true then
        some {st with drain := some (-1)}
      else none
    | some _ => none
  | .pass =>
    match st.drain with
    | none => none
    | some firstSlot =>
      match drainMessageBody sys caller ⟨st.boxes, firstSlot⟩ with
      | .next out => some (st.passed sys caller out.boxes (some out.firstSlot))
      | .stop out => some (st.passed sys caller out.boxes none)
      | .hang => none
  | .others boxes =>
    match st.drain with
    | none => some {st with boxes := boxes}
    | some _ => none

/-- The queues of all boxes are well formed, whoever holds their locks. -/
def WellFormed (sys : Platform) (boxes : Boxes) (d : ℕ → BoxLists) : Prop :=
  ∃ locks boxes₀, boxes = Locks.set locks true boxes₀ ∧ Describes sys boxes₀ d

/-- A slot has been claimed and is not queued. -/
def Claimed (boxes : Boxes) (caller slot : ℕ) : Prop :=
  slot < (boxes caller).outgoing.queues.pool.num ∧
    (boxes caller).outgoing.queues.pool.prev slot = slotIsDequeued

/-- A caller queues slots that it has claimed, and nobody else touches its
queue or the gateways of its messages. -/
def Proper (sys : Platform) (caller : ℕ) (st : State) : Action → Prop
  | .enqueue slot => Claimed st.boxes caller slot
  | .others boxes => (∃ d, WellFormed sys boxes d) ∧
      outgoingSlots boxes caller = outgoingSlots st.boxes caller ∧
      ∀ slot ∈ outgoingSlots boxes caller, ((boxes caller).outgoing.messages slot).gateway =
        ((st.boxes caller).outgoing.messages slot).gateway
  | .drain | .pass => True

/-- No drain returns by putting its first message behind another one for the
same callee. -/
def Careful (sys : Platform) (caller : ℕ) (st : State) : Action → Prop
  | .pass => ∀ slot rest, outgoingSlots st.boxes caller = slot :: rest → st.drain = some ↑slot →
      ∀ other ∈ rest, calleeOf sys st.boxes caller other ≠ calleeOf sys st.boxes caller slot
  | .enqueue _ | .drain | .others _ => True

/-- The queues of all boxes are well formed, the messages of the caller have
been queued in their order, and nothing has been delivered. -/
structure Initial (sys : Platform) (caller : ℕ) (st : State) : Prop where
  /-- The queues are well formed. -/
  boxes : ∃ d, WellFormed sys st.boxes d
  /-- The messages have been queued in their order. -/
  stamps : (outgoingSlots st.boxes caller).Pairwise fun s s' => st.stamp s < st.stamp s'
  /-- They have been queued before. -/
  clock : ∀ slot ∈ outgoingSlots st.boxes caller, st.stamp slot < st.clock
  /-- Nothing has been delivered. -/
  delivered : st.delivered = []
  /-- No drain is going on. -/
  drain : st.drain = none

/-! ## Queues under locks -/

section Locked

variable {sys : Platform} {caller slot : ℕ} {boxes boxes₀ boxes₀' : Boxes} {locks : Locks}
  {d d' : ℕ → BoxLists} {rest : List ℕ} {fate : Fate}

/-- A walk does not look at the lock. -/
theorem slotsFrom_setLock (pool : Pool) (acquired : Bool) (fuel slot : ℕ) :
    slotsFrom (pool.setLock acquired) fuel slot = slotsFrom pool fuel slot := by
  induction fuel generalizing slot with
  | zero => rfl
  | succ fuel ih => simp only [slotsFrom, setLock_next, ih]

theorem queueSlots_setLock {ι : Type} (m : PoolQueues ι) (acquired : Bool) (q : ι) :
    queueSlots (m.setLock acquired) q = queueSlots m q :=
  slotsFrom_setLock m.pool acquired 257 (m.queue q).head

theorem outgoingSlots_set (locks : Locks) (boxes : Boxes) (caller : ℕ) :
    outgoingSlots (locks.set true boxes) caller = outgoingSlots boxes caller := by
  cases ho : locks.outgoing caller with
  | true =>
    rw [outgoingSlots, set_outgoing_held locks true boxes caller ho, queueSlots_setLock]
    rfl
  | false =>
    rw [outgoingSlots, set_outgoing_free locks true boxes caller ho]
    rfl

theorem todoSlots_set (locks : Locks) (boxes : Boxes) (callee : ℕ) :
    todoSlots (locks.set true boxes) callee = todoSlots boxes callee := by
  cases hi : locks.incoming callee with
  | true =>
    rw [todoSlots, set_incoming_held locks true boxes callee hi, queueSlots_setLock]
    rfl
  | false =>
    rw [todoSlots, set_incoming_free locks true boxes callee hi]
    rfl

theorem calleeOf_set (locks : Locks) (boxes : Boxes) (caller slot : ℕ) :
    calleeOf sys (locks.set true boxes) caller slot = calleeOf sys boxes caller slot := rfl

theorem outgoingSlots_eq (h : Describes sys boxes d) (hc : caller < sys.boxCount) :
    outgoingSlots boxes caller = (d caller).out :=
  Represents.queueSlots_eq (h caller hc).outgoing ()

theorem todoSlots_eq (h : Describes sys boxes d) {callee : ℕ} (hc : callee < sys.boxCount) :
    todoSlots boxes callee = (d callee).incoming .todo :=
  Represents.queueSlots_eq (h callee hc).incoming .todo

/-- The callee of a message with a destination. -/
theorem calleeOf_destination {callee : ℕ} (h : destination sys boxes caller slot = some callee) :
    calleeOf sys boxes caller slot = callee := (destination_callee h).1

/-- A callee that a gateway names is a box. -/
theorem callee_lt {gateway : Gateway} {callee : ℕ} (h : calleeBoxId sys gateway = callee) :
    callee < sys.boxCount := by
  unfold calleeBoxId at h
  dsimp only at h
  split_ifs at h
  all_goals omega

/-- A pass records the message that it delivers, and no other one. -/
theorem deliveredNow_fared (h : Describes sys boxes₀ d) (h' : Describes sys boxes₀' d')
    (hc : caller < sys.boxCount) (hq : (d caller).out = slot :: rest)
    (hf : Fared sys caller slot rest boxes₀ boxes₀' d d' fate) :
    deliveredNow sys caller (locks.set true boxes₀) (locks.set true boxes₀') =
      if fate = .delivered then [slot] else [] := by
  have hframe : ∀ b, (boxes₀' b).incoming.queues = (boxes₀ b).incoming.queues →
      todoSlots boxes₀' b = todoSlots boxes₀ b := by
    intro b hb
    rw [todoSlots, todoSlots, hb]
  simp only [deliveredNow, outgoingSlots_set, outgoingSlots_eq h hc, hq, List.head?_cons,
    Option.toList_some, todoSlots_set, calleeOf_set]
  cases fate with
  | delivered =>
    obtain ⟨callee, fresh, free, hcallee, hfree, hlists, -⟩ := hf
    have hlt := callee_lt hcallee
    have hid : calleeOf sys boxes₀ caller slot = callee := hcallee
    have hgrown : todoSlots boxes₀' callee ≠ todoSlots boxes₀ callee := by
      rw [todoSlots_eq h' hlt, todoSlots_eq h hlt, hlists]
      simp [arriving]
    simp [hid, hgrown]
  | dropped => simp [hframe _ (hf.2.2.2.2.incoming _ (by simp))]
  | kept => simp [hframe _ (hf.2.2.2.incoming _ (by simp))]

/-- There is one cause under given locks. -/
theorem LockedCause.unique {fate' : Fate} (h : LockedCause sys locks caller slot boxes d fate)
    (h' : LockedCause sys locks caller slot boxes d fate') : fate = fate' := by
  cases hdest : destination sys boxes caller slot with
  | none => cases fate <;> cases fate' <;> simp_all [LockedCause]
  | some callee => cases fate <;> cases fate' <;> simp_all [LockedCause]

/-- A message that waits goes on waiting, however another one fares. -/
theorem LockedCause.wait {other : ℕ} (h : LockedCause sys locks caller other boxes₀ d .kept)
    (hf : Fared sys caller slot rest boxes₀ boxes₀' d d' fate)
    (hwhy : LockedCause sys locks caller slot boxes₀ d fate) :
    LockedCause sys locks caller other boxes₀' d' .kept := by
  obtain ⟨callee, hcallee, hbusy⟩ := h
  refine ⟨callee, (hf.destination_eq other).trans hcallee, hbusy.imp_right fun hfull => ?_⟩
  cases fate with
  | delivered =>
    obtain ⟨callee', fresh, free, hcallee', hfree, rfl, -⟩ := hf
    have hne : callee ≠ callee' := by
      rintro rfl
      rw [hfull] at hfree
      cases hfree
    simp [hne, hfull]
  | dropped =>
    obtain ⟨rfl, -⟩ := hf
    simpa using hfull
  | kept =>
    obtain ⟨rfl, -⟩ := hf
    simpa using hfull

/-- A message that is delivered passes no waiting one for the same callee. -/
theorem calleeOf_ne_of_wait {other : ℕ}
    (h : LockedCause sys locks caller other boxes₀ d .kept)
    (hwhy : LockedCause sys locks caller slot boxes₀ d .delivered) :
    calleeOf sys boxes₀ caller other ≠ calleeOf sys boxes₀ caller slot := by
  obtain ⟨callee, hcallee, hbusy⟩ := h
  obtain ⟨callee', hcallee', hfree, hroom⟩ := hwhy
  rw [calleeOf_destination hcallee, calleeOf_destination hcallee']
  intro he
  obtain rfl := Int.ofNat.inj he
  rcases hbusy with hbusy | hbusy
  · rw [hfree] at hbusy
    cases hbusy
  · exact hroom hbusy

end Locked

/-! ## The invariant -/

section Invariant

variable {sys : Platform} {caller slot : ℕ} {st : State} {boxes₀ boxes₀' : Boxes} {locks : Locks}
  {d d' : ℕ → BoxLists} {rest back todo : List ℕ} {fate : Fate} {firstSlot : ℤ}

/-- The queue in a drain. In front stand the messages that it has not seen,
and behind them those that it has put back. -/
structure Draining (sys : Platform) (caller : ℕ) (st : State) (locks : Locks) (boxes₀ : Boxes)
    (d : ℕ → BoxLists) (firstSlot : ℤ) (back todo : List ℕ) : Prop where
  /-- The queue. -/
  queue : (d caller).out = todo ++ back
  /-- What has been put back goes on waiting. -/
  waiting : ∀ slot ∈ back, LockedCause sys locks caller slot boxes₀ d .kept
  /-- Something is remembered once something has been seen. -/
  first : firstSlot = -1 ∧ back = [] ∨
    (∃ f : ℕ, firstSlot = f) ∧ locks.outgoing caller = false
  /-- The messages are in order. The remembered message, if it is still queued,
  is the first that has been put back; if not, all others may go round. -/
  order : (InOrder (st.delivered ++ (back ++ todo).map (st.entry sys caller)) ∧
      ∀ f : ℕ, firstSlot = f → f ∈ (d caller).out → back.head? = some f) ∨
    InOrder st.delivered ∧ todo = [] ∧ ∀ f : ℕ, firstSlot = f → f ∉ (d caller).out

/-- Messages stay in order from one drain to the next. -/
def Ordered (sys : Platform) (caller : ℕ) (st : State) (locks : Locks) (boxes₀ : Boxes)
    (d : ℕ → BoxLists) : Option ℤ → Prop
  | none => InOrder (st.delivered ++ (d caller).out.map (st.entry sys caller))
  | some firstSlot => ∃ back todo, Draining sys caller st locks boxes₀ d firstSlot back todo

/-- Memory and times of a state. -/
structure Described (sys : Platform) (caller : ℕ) (st : State) (locks : Locks) (boxes₀ : Boxes)
    (d : ℕ → BoxLists) : Prop where
  /-- Locks apart, the queues are well formed. -/
  boxes : st.boxes = locks.set true boxes₀
  /-- The queues are described. -/
  describes : Describes sys boxes₀ d
  /-- Delivered messages have been queued. -/
  delivered_lt : ∀ e ∈ st.delivered, e.2 < st.clock
  /-- And so have the others. -/
  queued_lt : ∀ slot ∈ (d caller).out, st.stamp slot < st.clock

/-- The invariant of the system. -/
def Inv (sys : Platform) (caller : ℕ) (st : State) : Prop :=
  ∃ locks boxes₀ d, Described sys caller st locks boxes₀ d ∧
    Ordered sys caller st locks boxes₀ d st.drain

/-- A pass leaves the callees of all messages as they are. -/
theorem entry_passed (h : Described sys caller st locks boxes₀ d)
    (hf : Fared sys caller slot rest boxes₀ boxes₀' d d' fate) (drain : Option ℤ) (other : ℕ) :
    (st.passed sys caller (locks.set true boxes₀') drain).entry sys caller other =
      st.entry sys caller other := by
  have hcallee : calleeOf sys boxes₀' caller other = calleeOf sys boxes₀ caller other := by
    rw [calleeOf, calleeOf, hf.gateway.1 other]
  simp only [State.entry, State.passed, calleeOf_set, h.boxes, hcallee]

/-- What has been delivered after a pass. -/
theorem delivered_passed (hc : caller < sys.boxCount) (h : Described sys caller st locks boxes₀ d)
    (hd' : Describes sys boxes₀' d') (hq : (d caller).out = slot :: rest)
    (hf : Fared sys caller slot rest boxes₀ boxes₀' d d' fate) (drain : Option ℤ) :
    (st.passed sys caller (locks.set true boxes₀') drain).delivered =
      st.delivered ++ if fate = .delivered then [st.entry sys caller slot] else [] := by
  simp only [State.passed, h.boxes, deliveredNow_fared h.describes hd' hc hq hf]
  split_ifs <;> rfl

/-- A pass leaves the times as they are. -/
theorem described_passed (hc : caller < sys.boxCount) (h : Described sys caller st locks boxes₀ d)
    (hd' : Describes sys boxes₀' d') (hq : (d caller).out = slot :: rest)
    (hf : Fared sys caller slot rest boxes₀ boxes₀' d d' fate) (drain : Option ℤ) :
    Described sys caller (st.passed sys caller (locks.set true boxes₀') drain) locks boxes₀'
      d' := by
  refine ⟨rfl, hd', fun e he => ?_, fun other hother => ?_⟩
  · rw [delivered_passed hc h hd' hq hf] at he
    rcases List.mem_append.mp he with he | he
    · exact h.delivered_lt e he
    · split_ifs at he
      · rw [List.mem_singleton.mp he]
        exact h.queued_lt slot (by simp [hq])
      · cases he
  · refine h.queued_lt other ?_
    rw [hf.out_eq] at hother
    rw [hq]
    split_ifs at hother
    · simpa [or_comm] using hother
    · exact List.mem_cons_of_mem _ hother

/-- A pass that goes round again keeps the messages in order. -/
theorem Draining.handled (hc : caller < sys.boxCount) (h : Described sys caller st locks boxes₀ d)
    (hdrain : Draining sys caller st locks boxes₀ d firstSlot back todo)
    (hd' : Describes sys boxes₀' d') (hq : (d caller).out = slot :: rest)
    (hunlocked : locks.outgoing caller = false) (hunseen : firstSlot ≠ slot)
    (hf : Fared sys caller slot rest boxes₀ boxes₀' d d' fate)
    (hwhy : LockedCause sys locks caller slot boxes₀ d fate) :
    ∃ back' todo', Draining sys caller
      (st.passed sys caller (locks.set true boxes₀') (some (remembered firstSlot slot))) locks
      boxes₀' d' (remembered firstSlot slot) back' todo' := by
  set st' := st.passed sys caller (locks.set true boxes₀') (some (remembered firstSlot slot))
  have hentry : st'.entry sys caller = st.entry sys caller :=
    funext (entry_passed h hf _)
  have hdelivered : st'.delivered =
      st.delivered ++ if fate = .delivered then [st.entry sys caller slot] else [] :=
    delivered_passed hc h hd' hq hf _
  have hfirst : (∃ f : ℕ, remembered firstSlot slot = f) ∧ locks.outgoing caller = false := by
    refine ⟨?_, hunlocked⟩
    rcases hdrain.first with ⟨hnone, -⟩ | ⟨⟨f, hfirst⟩, -⟩
    · exact ⟨slot, by simp [remembered, hnone]⟩
    · exact ⟨f, by simp [remembered, hfirst]⟩
  have hnodup : slot ∉ rest := by
    have hnd := (h.describes caller hc).outgoing.nodup ()
    rw [hq] at hnd
    exact (List.nodup_cons.mp hnd).1
  have hwait : ∀ other ∈ back, LockedCause sys locks caller other boxes₀' d' .kept :=
    fun other hother => LockedCause.wait (hdrain.waiting other hother) hf hwhy
  have hout := hf.out_eq
  have hqueue := hdrain.queue
  rw [hq] at hqueue
  cases todo with
  | nil =>
    -- Everything has been seen, and all of it waits.
    rw [List.nil_append] at hqueue
    have hkept := LockedCause.unique hwhy (hdrain.waiting slot (by simp [← hqueue]))
    subst hkept
    rw [if_pos rfl] at hout
    refine ⟨rest ++ [slot], [], by simpa using hout, fun other hother => hwait other ?_,
      Or.inr hfirst, Or.inr ⟨?_, rfl, ?_⟩⟩
    · rw [← hqueue]
      simpa [or_comm] using hother
    · rw [hdelivered]
      simp only [reduceCtorEq, if_false, List.append_nil]
      rcases hdrain.order with ⟨horder, -⟩ | ⟨horder, -⟩
      · exact horder.sublist (List.sublist_append_left _ _)
      · exact horder
    · intro f hf' hmem
      have hmem' : f ∈ (d caller).out := by
        rw [hout] at hmem
        rw [hq]
        simpa [or_comm] using hmem
      rcases hdrain.first with ⟨hnone, hback⟩ | ⟨⟨g, hg⟩, -⟩
      · rw [hback] at hqueue
        cases hqueue
      · have hfg : firstSlot = f := by simpa [remembered, hg] using hf'
        rcases hdrain.order with ⟨-, hhead⟩ | ⟨-, -, hgone⟩
        · have hh := hhead f hfg hmem'
          rw [← hqueue, List.head?_cons] at hh
          exact hunseen (by rw [hfg, Option.some.inj hh])
        · exact hgone f hfg hmem'
  | cons s todo =>
    obtain ⟨rfl, rfl⟩ := List.cons.inj hqueue
    obtain ⟨horder, hhead⟩ : InOrder (st.delivered ++ (back ++ slot :: todo).map
        (st.entry sys caller)) ∧
        ∀ f : ℕ, firstSlot = f → f ∈ (d caller).out → back.head? = some f := by
      rcases hdrain.order with horder | ⟨-, hnil, -⟩
      · exact horder
      · cases hnil
    -- Among the messages that stay, the remembered one is the first seen.
    have hhead' : ∀ f : ℕ, remembered firstSlot slot = f → f ∈ todo ++ back → back.head? = some f := by
      intro f hf' hmem
      rcases hdrain.first with ⟨hnone, -⟩ | ⟨⟨g, hg⟩, -⟩
      · have hfs : f = slot := by
          have he : (slot : ℤ) = f := by simpa [remembered, hnone] using hf'
          omega
        exact absurd (hfs ▸ hmem) hnodup
      · have hfg : firstSlot = f := by simpa [remembered, hg] using hf'
        exact hhead f hfg (by rw [hq]; exact List.mem_cons_of_mem _ hmem)
    cases fate with
    | kept =>
      rw [if_pos rfl] at hout
      refine ⟨back ++ [slot], todo, by simpa using hout, fun other hother => ?_, Or.inr hfirst,
        Or.inl ⟨?_, fun f hf' hmem => ?_⟩⟩
      · rcases List.mem_append.mp hother with hother | hother
        · exact hwait other hother
        · rw [List.mem_singleton.mp hother]
          exact LockedCause.wait hwhy hf hwhy
      · rw [hdelivered, hentry]
        simpa using horder
      · by_cases hfs : f = slot
        · rcases hdrain.first with ⟨-, hback⟩ | ⟨⟨g, hg⟩, -⟩
          · simp [hback, hfs]
          · have hfg : firstSlot = f := by simpa [remembered, hg] using hf'
            exact absurd (hfg.trans (by rw [hfs])) hunseen
        · rw [hout] at hmem
          have hmem' : f ∈ todo ++ back := by simpa [hfs] using hmem
          rw [List.head?_append, hhead' f hf' hmem']
          rfl
    | dropped =>
      rw [if_neg (by simp)] at hout
      refine ⟨back, todo, hout, hwait, Or.inr hfirst, Or.inl ⟨?_, fun f hf' hmem =>
        hhead' f hf' (by rwa [hout] at hmem)⟩⟩
      rw [hdelivered, hentry]
      simp only [reduceCtorEq, if_false, List.append_nil]
      refine horder.sublist (List.Sublist.append_left ?_ _)
      exact ((List.sublist_cons_self slot todo).append_left back).map _
    | delivered =>
      rw [if_neg (by simp)] at hout
      refine ⟨back, todo, hout, hwait, Or.inr hfirst, Or.inl ⟨?_, fun f hf' hmem =>
        hhead' f hf' (by rwa [hout] at hmem)⟩⟩
      rw [hdelivered, hentry]
      rw [List.map_append, List.map_cons] at horder
      simp only [if_true, List.map_append, List.append_assoc, List.singleton_append]
      refine horder.forward fun e he => ?_
      obtain ⟨other, hother, rfl⟩ := List.mem_map.mp he
      have hne := calleeOf_ne_of_wait (hdrain.waiting other hother) hwhy
      simpa only [State.entry, h.boxes, calleeOf_set] using hne

/-- A drain that finds nothing more to see, or the lock held, leaves the
messages in order. -/
theorem Draining.idle (hdrain : Draining sys caller st locks boxes₀ d firstSlot back todo)
    (why : locks.outgoing caller = true ∨ (d caller).out = []) :
    InOrder (st.delivered ++ (d caller).out.map (st.entry sys caller)) := by
  have hqueue := hdrain.queue
  have hback : back = [] := by
    rcases why with hlocked | hempty
    · rcases hdrain.first with ⟨-, hback⟩ | ⟨-, hfree⟩
      · exact hback
      · rw [hlocked] at hfree
        cases hfree
    · rw [hempty] at hqueue
      exact (List.append_eq_nil_iff.mp hqueue.symm).2
  subst hback
  rw [List.append_nil] at hqueue
  rcases hdrain.order with ⟨horder, -⟩ | ⟨horder, rfl, -⟩
  · rw [hqueue]
    exact horder
  · rw [hqueue]
    simpa using horder

/-- A drain that ends on its first message leaves the messages in order when
that one goes behind messages for other callees only. -/
theorem Draining.cameRound (hc : caller < sys.boxCount) (h : Described sys caller st locks boxes₀ d)
    (hdrain : Draining sys caller st locks boxes₀ d firstSlot back todo)
    (hq : (d caller).out = slot :: rest) (hseen : firstSlot = slot)
    (hcareful : ∀ other ∈ rest,
      calleeOf sys st.boxes caller other ≠ calleeOf sys st.boxes caller slot) :
    InOrder (st.delivered ++ (rest ++ [slot]).map (st.entry sys caller)) := by
  have hmem : slot ∈ (d caller).out := by simp [hq]
  have hnodup := (h.describes caller hc).outgoing.nodup ()
  rcases hdrain.order with ⟨horder, hhead⟩ | ⟨-, -, hgone⟩
  · obtain ⟨seen, rfl⟩ : ∃ seen, back = slot :: seen := by
      have hh := hhead slot hseen hmem
      cases back with
      | nil => cases hh
      | cons s seen => exact ⟨seen, by rw [Option.some.inj hh]⟩
    have hqueue := hdrain.queue
    cases todo with
    | nil =>
      rw [hq, List.nil_append] at hqueue
      obtain ⟨-, rfl⟩ := List.cons.inj hqueue
      rw [List.append_nil, List.map_cons] at horder
      rw [List.map_append]
      refine horder.backward fun e he => ?_
      obtain ⟨other, hother, rfl⟩ := List.mem_map.mp he
      exact hcareful other hother
    | cons s todo =>
      rw [hqueue] at hnodup
      rw [hq] at hqueue
      obtain ⟨rfl, -⟩ := List.cons.inj hqueue
      simp at hnodup
  · exact absurd hmem (hgone slot hseen)

/-- A pass that changes nothing records nothing. -/
theorem passed_self (drain : Option ℤ) :
    st.passed sys caller st.boxes drain = {st with drain := drain} := by
  have hnone : deliveredNow sys caller st.boxes st.boxes = [] := by simp [deliveredNow]
  rw [State.passed, hnone, List.map_nil, List.append_nil]

/-- A pass keeps the invariant. -/
theorem Inv.pass (hc : caller < sys.boxCount) (h : Inv sys caller st)
    (hcareful : Careful sys caller st .pass) {st' : State}
    (hstep : step sys caller st .pass = some st') : Inv sys caller st' := by
  obtain ⟨locks, boxes₀, d, hst, horder⟩ := h
  simp only [step] at hstep
  cases hdr : st.drain with
  | none =>
    rw [hdr] at hstep
    cases hstep
  | some firstSlot =>
    rw [hdr] at horder
    obtain ⟨back, todo, hdrain⟩ := horder
    simp only [hdr, hst.boxes] at hstep
    obtain ⟨boxes₀', d', hd', hpass⟩ := drainMessageBody_pass hst.describes hc firstSlot locks
    generalize drainMessageBody sys caller ⟨locks.set true boxes₀, firstSlot⟩ = flow at hstep hpass
    cases hpass with
    | idle why same lists =>
      obtain rfl := Option.some.inj hstep
      refine ⟨locks, boxes₀, d, ?_, ?_⟩
      · rw [same, ← hst.boxes, passed_self]
        exact ⟨hst.boxes, hst.describes, hst.delivered_lt, hst.queued_lt⟩
      · rw [same, ← hst.boxes, passed_self]
        exact hdrain.idle why
    | cameRound slot rest head unlocked seen fared =>
      obtain rfl := Option.some.inj hstep
      refine ⟨locks, boxes₀', d', described_passed hc hst hd' head fared none, ?_⟩
      have hslots : outgoingSlots st.boxes caller = slot :: rest := by
        rw [hst.boxes, outgoingSlots_set, outgoingSlots_eq hst.describes hc, head]
      have hout := fared.out_eq
      rw [if_pos rfl] at hout
      change InOrder _
      rw [delivered_passed hc hst hd' head fared, hout,
        funext (entry_passed hst fared none)]
      simpa using hdrain.cameRound hc hst head seen (hcareful slot rest hslots (by rw [hdr, seen]))
    | handled slot rest fate head unlocked unseen fared why =>
      obtain rfl := Option.some.inj hstep
      exact ⟨locks, boxes₀', d', described_passed hc hst hd' head fared _,
        hdrain.handled hc hst hd' head unlocked unseen fared why⟩

end Invariant

/-! ## Every run -/

section Runs

variable {sys : Platform} {caller : ℕ} {st st' : State}

/-- A slot that has been claimed is neither free nor queued. -/
theorem Claimed.held {boxes : Boxes} {free out : List ℕ} {slot : ℕ}
    (h : Claimed boxes caller slot)
    (hr : Represents (boxes caller).outgoing.queues free (fun _ => out)) :
    Held (boxes caller).outgoing.queues free (fun _ => out) slot := by
  refine ⟨h.1, fun hfree => ?_, fun _ hout => ?_⟩
  · have hstate := (hr.free_state slot hfree).symm.trans h.2
    cases hstate
  · exact (hr.queued_state (i := ()) hout).2 h.2

/-- A claimed slot goes to the end of the queue, whose lock is free. -/
theorem enqueueOutgoing_described (hc : caller < sys.boxCount) {locks : Locks}
    {boxes boxes₀ : Boxes} {d : ℕ → BoxLists} (hboxes : boxes = locks.set true boxes₀)
    (hd : Describes sys boxes₀ d) {slot : ℕ} (hclaimed : Claimed boxes caller slot) {rpc : BoxRpc}
    (hrpc : enqueueOutgoing (boxes caller) slot = some rpc) :
    ∃ boxes₀', Function.update boxes caller rpc = locks.set true boxes₀' ∧
      Describes sys boxes₀' (leaving d caller ((d caller).out ++ [slot])) ∧
      slot ∉ (d caller).out ∧
      ∀ other, calleeOf sys boxes₀' caller other = calleeOf sys boxes₀ caller other := by
  rw [enqueueOutgoing, Option.map_eq_some_iff] at hrpc
  obtain ⟨queues, hqueues, rfl⟩ := hrpc
  have hbox := hd caller hc
  have hlt : slot < (boxes₀ caller).outgoing.queues.pool.num := by
    have hnum := num_of_header () (set_outgoing_header locks true boxes₀ caller)
    rw [← hnum, ← hboxes]
    exact hclaimed.1
  obtain ⟨hlock, rfl⟩ := enqueue_eq_some (hbox.outgoing.lt_reserved hlt).1 hqueues
  have hfree : locks.outgoing caller = false := by
    by_contra hheld
    rw [Bool.not_eq_false] at hheld
    rw [hboxes, set_outgoing_held locks true boxes₀ caller hheld] at hlock
    cases hlock
  have hsame : (boxes caller).outgoing.queues = (boxes₀ caller).outgoing.queues := by
    rw [hboxes, set_outgoing_free locks true boxes₀ caller hfree]
  have hheld : Held (boxes₀ caller).outgoing.queues (d caller).outFree
      (fun _ => (d caller).out) slot := by
    rw [← hsame]
    exact Claimed.held hclaimed (hsame ▸ hbox.outgoing)
  refine ⟨_, ?_, putItBack_describes hd hc hheld, hheld.2.2 (), fun other => ?_⟩
  · rw [← set_setOutgoing locks true boxes₀ caller _ hfree, ← hboxes, ← hsame]
    rfl
  · simp [calleeOf]

/-- A message that is queued gets the latest time. -/
theorem Inv.enqueue (hc : caller < sys.boxCount) (h : Inv sys caller st) {slot : ℕ}
    (hclaimed : Claimed st.boxes caller slot)
    (hstep : step sys caller st (.enqueue slot) = some st') : Inv sys caller st' := by
  obtain ⟨locks, boxes₀, d, hst, horder⟩ := h
  simp only [step] at hstep
  cases hdr : st.drain with
  | some firstSlot =>
    rw [hdr] at hstep
    cases hstep
  | none =>
    rw [hdr] at horder
    simp only [hdr, Option.map_eq_some_iff] at hstep
    obtain ⟨rpc, hrpc, rfl⟩ := hstep
    obtain ⟨boxes₀', hboxes, hd', hnew, hcallee⟩ :=
      enqueueOutgoing_described hc hst.boxes hst.describes hclaimed hrpc
    rw [hboxes]
    set st' := st.enqueued (locks.set true boxes₀') slot
    set d' := leaving d caller ((d caller).out ++ [slot])
    have hout : (d' caller).out = (d caller).out ++ [slot] := by simp [d']
    have hstamp : ∀ other ∈ (d caller).out, st'.stamp other = st.stamp other := by
      intro other hother
      have hne : other ≠ slot := fun he => hnew (he ▸ hother)
      exact Function.update_of_ne hne ..
    have hself : st'.stamp slot = st.clock := Function.update_self ..
    have hentry : (d caller).out.map (st'.entry sys caller) =
        (d caller).out.map (st.entry sys caller) := by
      refine List.map_congr_left fun other hother => ?_
      have hcallee' : calleeOf sys st'.boxes caller other = calleeOf sys st.boxes caller other := by
        rw [hst.boxes]
        exact hcallee other
      rw [State.entry, State.entry, hstamp other hother, hcallee']
    refine ⟨locks, boxes₀', d', ⟨rfl, hd', fun e he => Nat.lt_succ_of_lt (hst.delivered_lt e he),
      fun other hother => ?_⟩, ?_⟩
    · rw [hout] at hother
      rcases List.mem_append.mp hother with hother | hother
      · rw [hstamp other hother]
        exact Nat.lt_succ_of_lt (hst.queued_lt other hother)
      · rw [List.mem_singleton.mp hother, hself]
        exact Nat.lt_succ_self _
    · have hnone : st'.drain = none := hdr
      rw [hnone]
      change InOrder _
      rw [hout, List.map_append, hentry, ← List.append_assoc]
      have hold : ∀ e ∈ st.delivered ++ (d caller).out.map (st.entry sys caller),
          e.2 < st.clock := by
        intro e he
        rcases List.mem_append.mp he with he | he
        · exact hst.delivered_lt e he
        · obtain ⟨other, hother, rfl⟩ := List.mem_map.mp he
          exact hst.queued_lt other hother
      have hlast : (List.map (st'.entry sys caller) [slot]) =
          [(calleeOf sys st'.boxes caller slot, st.clock)] := by
        rw [List.map_singleton, State.entry, hself]
      rw [hlast]
      exact InOrder.enter horder hold

/-- What happens elsewhere does not reorder the queue. -/
theorem Inv.others (hc : caller < sys.boxCount) (h : Inv sys caller st) {boxes : Boxes}
    (hproper : Proper sys caller st (.others boxes))
    (hstep : step sys caller st (.others boxes) = some st') : Inv sys caller st' := by
  obtain ⟨⟨d', locks', boxes₀', rfl, hd'⟩, hslots, hgateway⟩ := hproper
  obtain ⟨locks, boxes₀, d, hst, horder⟩ := h
  simp only [step] at hstep
  cases hdr : st.drain with
  | some firstSlot =>
    rw [hdr] at hstep
    cases hstep
  | none =>
    rw [hdr] at horder hstep
    obtain rfl := Option.some.inj hstep
    have hout : (d' caller).out = (d caller).out := by
      have hbefore : outgoingSlots st.boxes caller = (d caller).out := by
        rw [hst.boxes, outgoingSlots_set, outgoingSlots_eq hst.describes hc]
      rw [← outgoingSlots_eq hd' hc, ← outgoingSlots_set locks', hslots, hbefore]
    rw [outgoingSlots_set, outgoingSlots_eq hd' hc, hout] at hgateway
    refine ⟨locks', boxes₀', d', ⟨rfl, hd', hst.delivered_lt, fun slot hslot => ?_⟩, ?_⟩
    · exact hst.queued_lt slot (hout ▸ hslot)
    · change InOrder (st.delivered ++ (d' caller).out.map _)
      have hentry : (d caller).out.map (State.entry sys caller
          ⟨locks'.set true boxes₀', st.stamp, st.clock, st.delivered, none⟩) =
            (d caller).out.map (st.entry sys caller) := by
        refine List.map_congr_left fun slot hslot => ?_
        simp only [State.entry, calleeOf, hgateway slot hslot]
      rw [hout, hentry]
      exact horder

/-- A drain begins with nothing seen. -/
theorem Inv.drain (h : Inv sys caller st)
    (hstep : step sys caller st .drain = some st') : Inv sys caller st' := by
  obtain ⟨locks, boxes₀, d, hst, horder⟩ := h
  simp only [step] at hstep
  cases hdr : st.drain with
  | some firstSlot =>
    rw [hdr] at hstep
    cases hstep
  | none =>
    rw [hdr] at horder hstep
    split_ifs at hstep
    obtain rfl := Option.some.inj hstep
    refine ⟨locks, boxes₀, d, ⟨hst.boxes, hst.describes, hst.delivered_lt, hst.queued_lt⟩, [],
      (d caller).out, (List.append_nil _).symm, ?_, Or.inl ⟨rfl, rfl⟩, Or.inl ⟨horder, ?_⟩⟩
    · intro slot hslot
      cases hslot
    · intro f hf
      omega

/-- Messages that were queued in their order are in order. -/
theorem inv_initial (hc : caller < sys.boxCount) (h : Initial sys caller st) :
    Inv sys caller st := by
  obtain ⟨d, locks, boxes₀, hboxes, hd⟩ := h.boxes
  have hslots : outgoingSlots st.boxes caller = (d caller).out := by
    rw [hboxes, outgoingSlots_set, outgoingSlots_eq hd hc]
  refine ⟨locks, boxes₀, d, ⟨hboxes, hd, fun e he => ?_, fun slot hslot => ?_⟩, ?_⟩
  · rw [h.delivered] at he
    cases he
  · exact h.clock slot (hslots ▸ hslot)
  · rw [h.drain]
    change InOrder _
    rw [h.delivered, List.nil_append, ← hslots]
    refine List.pairwise_map.mpr (List.Pairwise.imp ?_ h.stamps)
    intro slot slot' hlt _
    exact hlt

/-- Every careful step keeps the messages in order. -/
theorem inv_step (hc : caller < sys.boxCount) (h : Inv sys caller st) {action : Action}
    (hproper : Proper sys caller st action) (hcareful : Careful sys caller st action)
    (hstep : step sys caller st action = some st') : Inv sys caller st' := by
  cases action with
  | enqueue slot => exact Inv.enqueue hc h hproper hstep
  | drain => exact Inv.drain h hstep
  | pass => exact Inv.pass hc h hcareful hstep
  | others boxes => exact Inv.others hc h hproper hstep

/-- Under the invariant, the delivered messages are in order. -/
theorem Inv.inOrder (h : Inv sys caller st) : InOrder st.delivered := by
  obtain ⟨locks, boxes₀, d, hst, horder⟩ := h
  cases hdr : st.drain with
  | none =>
    rw [hdr] at horder
    exact InOrder.sublist horder (List.sublist_append_left _ _)
  | some firstSlot =>
    rw [hdr] at horder
    obtain ⟨back, todo, hdrain⟩ := horder
    rcases hdrain.order with ⟨horder, -⟩ | ⟨horder, -⟩
    · exact horder.sublist (List.sublist_append_left _ _)
    · exact horder

/-- A step that is not careful delivers nothing. -/
theorem Inv.careless (hc : caller < sys.boxCount) (h : Inv sys caller st) {action : Action}
    (hcareless : ¬Careful sys caller st action)
    (hstep : step sys caller st action = some st') : st'.delivered = st.delivered := by
  obtain ⟨locks, boxes₀, d, hst, -⟩ := h
  cases action with
  | enqueue slot => exact absurd trivial hcareless
  | drain => exact absurd trivial hcareless
  | others boxes => exact absurd trivial hcareless
  | pass =>
    simp only [step] at hstep
    cases hdr : st.drain with
    | none =>
      rw [hdr] at hstep
      cases hstep
    | some firstSlot =>
      simp only [hdr, hst.boxes] at hstep
      obtain ⟨boxes₀', d', hd', hpass⟩ := drainMessageBody_pass hst.describes hc firstSlot locks
      generalize drainMessageBody sys caller ⟨locks.set true boxes₀, firstSlot⟩ = flow at hstep hpass
      cases hpass with
      | idle why same lists =>
        obtain rfl := Option.some.inj hstep
        rw [same, ← hst.boxes, passed_self]
      | cameRound slot rest head unlocked seen fared =>
        obtain rfl := Option.some.inj hstep
        rw [delivered_passed hc hst hd' head fared]
        simp
      | handled slot rest fate head unlocked unseen fared why =>
        refine absurd (fun slot' rest' hslots hdrain => ?_) hcareless
        rw [hst.boxes, outgoingSlots_set, outgoingSlots_eq hst.describes hc, head] at hslots
        obtain ⟨rfl, -⟩ := List.cons.inj hslots
        rw [hdr] at hdrain
        exact absurd (Option.some.inj hdrain) unseen

/-- Across any number of drains, the messages of a caller to one callee are
delivered in the order in which they were queued, as long as no drain returns
by putting its first message behind another one for the same callee. -/
theorem delivered_inOrder (hc : caller < sys.boxCount)
    (h : Reachable (Initial sys caller) (step sys caller)
      (fun st action => Proper sys caller st action ∧ Careful sys caller st action) st) :
    InOrder st.delivered ∧
      ∀ action st', Proper sys caller st action → step sys caller st action = some st' →
        InOrder st'.delivered := by
  have hinv : Inv sys caller st := h.invariant (Inv sys caller) (fun _ => inv_initial hc)
    fun _ _ _ hi hallowed hs => inv_step hc hi hallowed.1 hallowed.2 hs
  refine ⟨hinv.inOrder, fun action st' hproper hstep => ?_⟩
  by_cases hcareful : Careful sys caller st action
  · exact (inv_step hc hinv hproper hcareful hstep).inOrder
  · rw [hinv.careless hc hcareful hstep]
    exact hinv.inOrder

/-- Whoever holds locks, and careful or not, every step keeps the queues well
formed. -/
theorem wellFormed_step (hc : caller < sys.boxCount) (h : ∃ d, WellFormed sys st.boxes d)
    {action : Action} (hproper : Proper sys caller st action)
    (hstep : step sys caller st action = some st') : ∃ d, WellFormed sys st'.boxes d := by
  obtain ⟨d, locks, boxes₀, hboxes, hd⟩ := h
  cases hdr : st.drain with
  | none =>
    cases action with
    | enqueue slot =>
      simp only [step, hdr, Option.map_eq_some_iff] at hstep
      obtain ⟨rpc, hrpc, rfl⟩ := hstep
      obtain ⟨boxes₀', hboxes', hd', -⟩ := enqueueOutgoing_described hc hboxes hd hproper hrpc
      exact ⟨_, locks, boxes₀', hboxes', hd'⟩
    | drain =>
      simp only [step, hdr] at hstep
      split_ifs at hstep
      obtain rfl := Option.some.inj hstep
      exact ⟨d, locks, boxes₀, hboxes, hd⟩
    | pass =>
      simp only [step, hdr] at hstep
      cases hstep
    | others boxes =>
      simp only [step, hdr] at hstep
      obtain rfl := Option.some.inj hstep
      exact hproper.1
  | some firstSlot =>
    cases action with
    | enqueue slot =>
      simp only [step, hdr] at hstep
      cases hstep
    | drain =>
      simp only [step, hdr] at hstep
      cases hstep
    | pass =>
      simp only [step, hdr, hboxes] at hstep
      obtain ⟨boxes₀', d', hd', hpass⟩ := drainMessageBody_pass hd hc firstSlot locks
      generalize drainMessageBody sys caller ⟨locks.set true boxes₀, firstSlot⟩ = flow at hstep hpass
      cases hpass <;>
      · obtain rfl := Option.some.inj hstep
        exact ⟨d', locks, boxes₀', rfl, hd'⟩
    | others boxes =>
      simp only [step, hdr] at hstep
      cases hstep

/-- The queues are well formed in every run. -/
theorem reachable_wellFormed (hc : caller < sys.boxCount)
    (h : Reachable (Initial sys caller) (step sys caller) (Proper sys caller) st) :
    ∃ d, WellFormed sys st.boxes d :=
  h.invariant (fun st => ∃ d, WellFormed sys st.boxes d) (fun _ hi => hi.boxes)
    fun _ _ _ hi hproper hs => wellFormed_step hc hi hproper hs

end Runs

/-! ## Drains that deliver and drop nothing -/

section Rotation

variable {sys : Platform} {caller : ℕ}

/-- What holds whenever control is at the head of the loop of a drain. -/
def AtHead (sys : Platform) (caller : ℕ) (locks : Locks) (out : List ℕ) (st : DrainState) : Prop :=
  ∃ boxes₀ d first, st.boxes = locks.set true boxes₀ ∧ Describes sys boxes₀ d ∧
    st.firstSlot = Option.elim first (-1) Nat.cast ∧ Tracked out (d caller).out first ∧
    (locks.outgoing caller = true → (d caller).out = out)

/-- A pass that goes round again tracks the queue. -/
theorem atHead_next (hc : caller < sys.boxCount) {locks : Locks} {out : List ℕ}
    {st st' : DrainState} (h : AtHead sys caller locks out st)
    (hb : drainMessageBody sys caller st = .next st') : AtHead sys caller locks out st' := by
  obtain ⟨boxes, firstSlot⟩ := st
  obtain ⟨boxes₀, d, first, rfl, hd, rfl, htracked, -⟩ := h
  obtain ⟨boxes₀', d', hd', hpass⟩ :=
    drainMessageBody_pass hd hc (Option.elim first (-1) Nat.cast) locks
  rw [hb] at hpass
  cases hpass with
  | handled slot rest fate head unlocked unseen fared why =>
    have hunseen : first ≠ some slot := by
      rintro rfl
      exact unseen rfl
    have hnodup := (hd caller hc).outgoing.nodup ()
    rw [head] at hnodup htracked
    refine ⟨boxes₀', d', some (first.getD slot), rfl, hd', ?_, ?_, ?_⟩
    · cases first <;> simp [remembered]
    · rw [fared.out_eq]
      split_ifs
      · exact htracked.putBack fun _ => hunseen
      · exact htracked.leave hnodup _
    · rw [unlocked]
      intro hlocked
      cases hlocked

/-- A call of drain_message_queue after which all messages are still queued has
rotated the queue by one. It has left the queue alone if that is not valid or
its lock is held. -/
theorem drainMessageQueue_rotates (hc : caller < sys.boxCount) {boxes boxes' : Boxes}
    (h : ∃ d, WellFormed sys boxes d) {fuel : ℕ}
    (hrun : drainMessageQueue sys caller fuel boxes = some boxes')
    (hall : outgoingSlots boxes caller ⊆ outgoingSlots boxes' caller) :
    outgoingSlots boxes' caller =
      if isValidQueue sys (sys.outgoingQueue caller) (boxes caller).outgoing.queues () caller = true
          ∧ (boxes caller).outgoing.queues.pool.spinlock = false then
        (outgoingSlots boxes caller).rotate 1
      else outgoingSlots boxes caller := by
  obtain ⟨d, locks, boxes₀, rfl, hd⟩ := h
  unfold drainMessageQueue at hrun
  dsimp only at hrun
  split_ifs at hrun with hvalid
  · obtain rfl := Option.some.inj hrun
    rw [if_neg (by simp [hvalid])]
  rw [Bool.not_eq_false] at hvalid
  obtain ⟨last, hlast, rfl⟩ := Option.map_eq_some_iff.mp hrun
  obtain ⟨st, hvisits, hstop⟩ := visits_of_iterate hlast
  have hslots : outgoingSlots (locks.set true boxes₀) caller = (d caller).out := by
    rw [outgoingSlots_set, outgoingSlots_eq hd hc]
  rw [hslots] at hall ⊢
  have hentry : AtHead sys caller locks (d caller).out ⟨locks.set true boxes₀, -1⟩ :=
    ⟨boxes₀, d, none, rfl, hd, rfl, .start _, fun _ => rfl⟩
  obtain ⟨boxes₁, d₁, first, hboxes₁, hd₁, hfirst, htracked, hlocked⟩ :=
    hvisits.invariant (AtHead sys caller locks (d caller).out) hentry
      fun _ _ hi hb => atHead_next hc hi hb
  obtain ⟨boxes, firstSlot⟩ := st
  obtain rfl : boxes = locks.set true boxes₁ := hboxes₁
  obtain ⟨boxes₂, d₂, hd₂, hpass⟩ := drainMessageBody_pass hd₁ hc firstSlot locks
  rw [hstop] at hpass
  have hout : ∀ {b e}, Describes sys b e → outgoingSlots (locks.set true b) caller =
      (e caller).out := fun he => by rw [outgoingSlots_set, outgoingSlots_eq he hc]
  cases ho : locks.outgoing caller with
  | true =>
    have hheld : (locks.set true boxes₀ caller).outgoing.queues.pool.spinlock ≠ false := by
      rw [set_outgoing_held locks true boxes₀ caller ho]
      intro hfree
      cases hfree
    rw [if_neg fun hboth => hheld hboth.2]
    cases hpass with
    | idle why same lists => rw [hout hd₂, lists, hlocked ho]
    | cameRound slot rest head unlocked seen fared => simp [ho] at unlocked
  | false =>
    have hfree := (hd caller hc).outgoing_lock
    rw [if_pos ⟨hvalid, by rwa [set_outgoing_free locks true boxes₀ caller ho]⟩]
    cases hpass with
    | idle why same lists =>
      rw [hout hd₂, lists, why.resolve_left (by simp [ho])] at hall ⊢
      simp [List.subset_nil.mp hall]
    | cameRound slot rest head unlocked seen fared =>
      have heq := fared.out_eq
      rw [if_pos rfl] at heq
      rw [hout hd₂, heq] at hall ⊢
      have hsome : first = some slot := by
        cases first with
        | none =>
          have hneg : (-1 : ℤ) = slot := hfirst.symm.trans seen
          omega
        | some f =>
          have hcast : (f : ℤ) = slot := hfirst.symm.trans seen
          rw [Int.ofNat.inj hcast]
      rw [head, hsome] at htracked
      exact htracked.cameRound ((hd caller hc).outgoing.nodup ()) hall

end Rotation

end Uvisor.MessageOrder
