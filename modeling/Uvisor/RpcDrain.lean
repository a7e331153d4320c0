import Uvisor.RpcDescription
import Uvisor.QueueRotation

/-!
# One pass of draining the outgoing messages

A pass takes the first outgoing message of the caller and delivers it, puts
it back, or drops it. Which of the three happens depends on the destination
that validation leaves and on the room there. Everything that takes no part
in the pass stays as it was.
-/

namespace Uvisor.RpcDrain

open PoolQueue PoolInvariant PoolOperations Rpc RpcApi RpcDescription Execution QueueRotation

/-- Callee of the message in an outgoing slot, when both its gateway and the
todo queue of the callee pass validation. -/
def destination (sys : Platform) (boxes : Boxes) (caller slot : ℕ) : Option ℕ :=
  let gateway := ((boxes caller).outgoing.messages slot).gateway
  let callee := (calleeBoxId sys (sys.gateway gateway)).toNat
  let queues := (boxes callee).incoming.queues
  if isValidRpcGateway sys gateway = true ∧
      isValidQueue sys (sys.incomingQueue .todo callee) queues .todo callee = true
  then some callee else none

/-- A valid gateway names a box other than box 0. -/
theorem calleeBoxId_of_valid {sys : Platform} {address : ℕ}
    (h : isValidRpcGateway sys address = true) :
    1 ≤ calleeBoxId sys (sys.gateway address) ∧
      calleeBoxId sys (sys.gateway address) < sys.boxCount := by
  have hpos : 0 ≤ calleeBoxId sys (sys.gateway address) := by
    simp only [isValidRpcGateway, Bool.and_eq_true, decide_eq_true_eq] at h
    exact h.1.1.2
  unfold calleeBoxId at hpos ⊢
  dsimp only at hpos ⊢
  split at hpos
  · omega
  · rename_i halign
    rw [if_neg halign]
    split at hpos
    · omega
    · rename_i hrange
      rw [if_neg hrange]
      omega

section Passes

variable {sys : Platform} {caller : ℕ}

/-- A destination is the box that the gateway names. -/
theorem destination_callee {boxes : Boxes} {slot callee : ℕ}
    (h : destination sys boxes caller slot = some callee) :
    calleeBoxId sys (sys.gateway ((boxes caller).outgoing.messages slot).gateway) = callee ∧
      callee < sys.boxCount := by
  unfold destination at h
  dsimp only at h
  split at h
  · rename_i hv
    have hrange := calleeBoxId_of_valid hv.1
    have hcallee := Option.some.inj h
    omega
  · cases h

/-- What a pass leaves alone: structures of boxes that take no part, and in
every box the queue headers, the function groups but for their semaphores,
and the result counter. -/
structure Frame (caller : ℕ) (callee : Option ℕ) (boxes boxes' : Boxes) : Prop where
  /-- Outgoing structures of other boxes. -/
  outgoing : ∀ b, b ≠ caller → (boxes' b).outgoing.queues = (boxes b).outgoing.queues
  /-- Incoming structures of other boxes. -/
  incoming : ∀ b, callee ≠ some b → (boxes' b).incoming.queues = (boxes b).incoming.queues
  /-- Headers of the outgoing queues. -/
  outgoing_header : ∀ b,
    header (boxes' b).outgoing.queues = header (boxes b).outgoing.queues
  /-- Headers of the incoming queues. -/
  incoming_header : ∀ b,
    header (boxes' b).incoming.queues = header (boxes b).incoming.queues
  /-- Function groups of other boxes. -/
  fnGroups : ∀ b, callee ≠ some b → (boxes' b).fnGroups = (boxes b).fnGroups
  /-- Structures of the function group queues. -/
  groupQueues : ∀ b, (boxes' b).fnGroups.queues = (boxes b).fnGroups.queues
  /-- Functions of the function groups. -/
  groupFns : ∀ b s, SameGroup ((boxes b).fnGroups.fnGroups s) ((boxes' b).fnGroups.fnGroups s)
  /-- Counters for result tokens. -/
  resultCounter : ∀ b, (boxes' b).resultCounter = (boxes b).resultCounter

/-- The fields that delivery copies or sets in the callee's message. -/
structure Copied (caller : ℕ) (msg copy : Message) : Prop where
  /-- The arguments are the caller's. -/
  arguments : copy.p0 = msg.p0 ∧ copy.p1 = msg.p1 ∧ copy.p2 = msg.p2 ∧ copy.p3 = msg.p3
  /-- The gateway is the caller's. -/
  gateway : copy.gateway = msg.gateway
  /-- The token is the caller's. -/
  matchCookie : copy.matchCookie = msg.matchCookie
  /-- The message remembers where it comes from. -/
  otherBoxId : copy.otherBoxId = caller
  /-- The message is marked as sent. -/
  state : copy.state = .sent

/-- What delivery writes into the two messages, and that it writes no others. -/
structure HandedOver (caller slot callee fresh : ℕ) (boxes boxes' : Boxes) : Prop where
  /-- The callee's slot holds a copy. -/
  copied : Copied caller ((boxes caller).outgoing.messages slot)
    ((boxes' callee).incoming.messages fresh)
  /-- The caller's message knows its callee and is marked as sent. -/
  original : (boxes' caller).outgoing.messages slot =
    {(boxes caller).outgoing.messages slot with otherBoxId := callee, state := .sent}
  /-- All other outgoing messages. -/
  outgoing : ∀ b s, ¬(b = caller ∧ s = slot) →
    (boxes' b).outgoing.messages s = (boxes b).outgoing.messages s
  /-- All other incoming messages. -/
  incoming : ∀ b s, ¬(b = callee ∧ s = fresh) →
    (boxes' b).incoming.messages s = (boxes b).incoming.messages s

/-- Outgoing list of the caller after a pass. -/
def leaving (d : ℕ → BoxLists) (caller : ℕ) (out : List ℕ) : ℕ → BoxLists :=
  Function.update d caller {d caller with out := out}

/-- Incoming lists of the callee after a slot has been allocated and put at
the end of the todo queue. -/
def arriving (d : ℕ → BoxLists) (callee slot : ℕ) (free : List ℕ) : ℕ → BoxLists :=
  let incoming := (d callee).incoming
  Function.update d callee {d callee with
    inFree := free, incoming := Function.update incoming .todo (incoming .todo ++ [slot])}

section Lists

variable (d : ℕ → BoxLists) (caller callee slot : ℕ) (out free : List ℕ) (b : ℕ)

@[simp] theorem leaving_out :
    (leaving d caller out b).out = if b = caller then out else (d b).out := by
  by_cases hb : b = caller
  · subst hb
    simp [leaving]
  · simp [leaving, hb]

@[simp] theorem leaving_outFree : (leaving d caller out b).outFree = (d b).outFree := by
  by_cases hb : b = caller
  · subst hb
    simp [leaving]
  · simp [leaving, hb]

@[simp] theorem leaving_inFree : (leaving d caller out b).inFree = (d b).inFree := by
  by_cases hb : b = caller
  · subst hb
    simp [leaving]
  · simp [leaving, hb]

@[simp] theorem leaving_incoming : (leaving d caller out b).incoming = (d b).incoming := by
  by_cases hb : b = caller
  · subst hb
    simp [leaving]
  · simp [leaving, hb]

@[simp] theorem arriving_out : (arriving d callee slot free b).out = (d b).out := by
  by_cases hb : b = callee
  · subst hb
    simp [arriving]
  · simp [arriving, hb]

@[simp] theorem arriving_outFree : (arriving d callee slot free b).outFree = (d b).outFree := by
  by_cases hb : b = callee
  · subst hb
    simp [arriving]
  · simp [arriving, hb]

@[simp] theorem arriving_inFree :
    (arriving d callee slot free b).inFree = if b = callee then free else (d b).inFree := by
  by_cases hb : b = callee
  · subst hb
    simp [arriving]
  · simp [arriving, hb]

end Lists

/-- How the message dequeued by a pass has fared, told from the memory and
the descriptions before and after the pass. -/
def Fared (sys : Platform) (caller slot : ℕ) (rest : List ℕ) (boxes boxes' : Boxes)
    (d d' : ℕ → BoxLists) : Fate → Prop
  | .delivered => ∃ callee fresh free,
      let gateway := ((boxes caller).outgoing.messages slot).gateway
      calleeBoxId sys (sys.gateway gateway) = (callee : ℕ) ∧
      (d callee).inFree = fresh :: free ∧
      d' = arriving (leaving d caller rest) callee fresh free ∧
      Held (boxes' caller).outgoing.queues (d' caller).outFree (fun _ => (d' caller).out) slot ∧
      HandedOver caller slot callee fresh boxes boxes' ∧
      Frame caller (some callee) boxes boxes'
  | .dropped =>
      d' = leaving d caller rest ∧
      Held (boxes' caller).outgoing.queues (d' caller).outFree (fun _ => (d' caller).out) slot ∧
      (∀ b, (boxes' b).outgoing.messages = (boxes b).outgoing.messages) ∧
      (∀ b, (boxes' b).incoming.messages = (boxes b).incoming.messages) ∧
      Frame caller none boxes boxes'
  | .kept =>
      d' = leaving d caller (rest ++ [slot]) ∧
      (∀ b, (boxes' b).outgoing.messages = (boxes b).outgoing.messages) ∧
      (∀ b, (boxes' b).incoming.messages = (boxes b).incoming.messages) ∧
      Frame caller none boxes boxes'

/-! ## Frames of the writes -/

section Frames

variable {boxes boxes' : Boxes} {callee : Option ℕ}

theorem Frame.refl (boxes : Boxes) : Frame caller callee boxes boxes :=
  ⟨fun _ _ => rfl, fun _ _ => rfl, fun _ => rfl, fun _ => rfl, fun _ _ => rfl, fun _ => rfl,
    fun _ _ => ⟨rfl, rfl⟩, fun _ => rfl⟩

theorem Frame.trans {boxes'' : Boxes} (h : Frame caller none boxes boxes')
    (h' : Frame caller callee boxes' boxes'') : Frame caller callee boxes boxes'' := by
  refine ⟨fun b hb => ?_, fun b hb => ?_, fun b => ?_, fun b => ?_, fun b hb => ?_, fun b => ?_,
    fun b s => ?_, fun b => ?_⟩
  · rw [h'.outgoing b hb, h.outgoing b hb]
  · rw [h'.incoming b hb, h.incoming b (by simp)]
  · rw [h'.outgoing_header, h.outgoing_header]
  · rw [h'.incoming_header, h.incoming_header]
  · rw [h'.fnGroups b hb, h.fnGroups b (by simp)]
  · rw [h'.groupQueues, h.groupQueues]
  · have hg := h.groupFns b s
    have hg' := h'.groupFns b s
    exact ⟨hg'.1.trans hg.1, hg'.2.trans hg.2⟩
  · rw [h'.resultCounter, h.resultCounter]

theorem Frame.setOutgoing (h : Frame caller callee boxes boxes') {q : PoolQueues Unit}
    (hq : header q = header (boxes' caller).outgoing.queues) :
    Frame caller callee boxes (boxes'.setOutgoing caller q) := by
  refine ⟨fun b hb => ?_, ?_, fun b => ?_, ?_, ?_, ?_, ?_, ?_⟩
  · simp [hb, h.outgoing b hb]
  · simpa using h.incoming
  · by_cases hb : b = caller
    · subst hb
      simp [hq, h.outgoing_header]
    · simp [hb, h.outgoing_header]
  · simpa using h.incoming_header
  · simpa using h.fnGroups
  · simpa using h.groupQueues
  · simpa using h.groupFns
  · simpa using h.resultCounter

theorem Frame.setIncoming {callee : ℕ} (h : Frame caller (some callee) boxes boxes')
    {q : PoolQueues IncomingName} (hq : header q = header (boxes' callee).incoming.queues) :
    Frame caller (some callee) boxes (boxes'.setIncoming callee q) := by
  refine ⟨?_, fun b hb => ?_, ?_, fun b => ?_, ?_, ?_, ?_, ?_⟩
  · simpa using h.outgoing
  · have hne : b ≠ callee := fun he => hb (congrArg some he.symm)
    simp [hne, h.incoming b hb]
  · simpa using h.outgoing_header
  · by_cases hb : b = callee
    · subst hb
      simp [hq, h.incoming_header]
    · simp [hb, h.incoming_header]
  · simpa using h.fnGroups
  · simpa using h.groupQueues
  · simpa using h.groupFns
  · simpa using h.resultCounter

theorem Frame.setOutgoingMessage (h : Frame caller callee boxes boxes') (b slot : ℕ)
    (msg : Message) : Frame caller callee boxes (boxes'.setOutgoingMessage b slot msg) := by
  refine ⟨?_, ?_, ?_, ?_, ?_, ?_, ?_, ?_⟩
  · simpa using h.outgoing
  · simpa using h.incoming
  · simpa using h.outgoing_header
  · simpa using h.incoming_header
  · simpa using h.fnGroups
  · simpa using h.groupQueues
  · simpa using h.groupFns
  · simpa using h.resultCounter

theorem Frame.setIncomingMessage (h : Frame caller callee boxes boxes') (b slot : ℕ)
    (msg : Message) : Frame caller callee boxes (boxes'.setIncomingMessage b slot msg) := by
  refine ⟨?_, ?_, ?_, ?_, ?_, ?_, ?_, ?_⟩
  · simpa using h.outgoing
  · simpa using h.incoming
  · simpa using h.outgoing_header
  · simpa using h.incoming_header
  · simpa using h.fnGroups
  · simpa using h.groupQueues
  · simpa using h.groupFns
  · simpa using h.resultCounter

theorem Frame.setFnGroups {callee : ℕ} (h : Frame caller (some callee) boxes boxes')
    {groups : FnGroups} (hqueues : groups.queues = (boxes' callee).fnGroups.queues)
    (hfns : ∀ s, SameGroup ((boxes' callee).fnGroups.fnGroups s) (groups.fnGroups s)) :
    Frame caller (some callee) boxes (boxes'.setFnGroups callee groups) := by
  refine ⟨?_, ?_, ?_, ?_, fun b hb => ?_, fun b => ?_, fun b s => ?_, ?_⟩
  · simpa using h.outgoing
  · simpa using h.incoming
  · simpa using h.outgoing_header
  · simpa using h.incoming_header
  · have hne : b ≠ callee := fun he => hb (congrArg some he.symm)
    simp [hne, h.fnGroups b hb]
  · by_cases hb : b = callee
    · subst hb
      simp [hqueues, h.groupQueues]
    · simp [hb, h.groupQueues]
  · have hg := h.groupFns b s
    by_cases hb : b = callee
    · subst hb
      simp only [setFnGroups_fnGroups, if_true]
      exact ⟨(hfns s).1.trans hg.1, (hfns s).2.trans hg.2⟩
    · simpa [hb] using hg
  · simpa using h.resultCounter

end Frames

/-! ## The parts of a pass -/

section Parts

variable {boxes : Boxes} {d : ℕ → BoxLists} {slot : ℕ} {rest : List ℕ}

/-- Dequeuing takes the first message off the caller's list. -/
theorem dequeue_first (h : Describes sys boxes d) (hc : caller < sys.boxCount)
    (hq : (d caller).out = slot :: rest) :
    let dequeued := uvisorPoolQueueTryDequeueFirst (boxes caller).outgoing.queues ()
    dequeued.1 = slot ∧
      Describes sys (boxes.setOutgoing caller dequeued.2) (leaving d caller rest) ∧
      Held dequeued.2 (d caller).outFree (fun _ => rest) slot := by
  have hd := h caller hc
  obtain ⟨hs, hr, hh⟩ := tryDequeueFirst_cons (q := ()) hd.outgoing hd.outgoing_lock hq
  rw [update_unit] at hr hh
  exact ⟨hs, h.setOutgoing hr (by simpa using hd.outgoing_lock), hh⟩

/-- Putting a held slot back appends it to the caller's list. -/
theorem putItBack_describes (h : Describes sys boxes d) (hc : caller < sys.boxCount)
    (hh : Held (boxes caller).outgoing.queues (d caller).outFree (fun _ => (d caller).out) slot) :
    Describes sys (boxes.setOutgoing caller (putItBack (boxes caller).outgoing.queues () slot))
      (leaving d caller ((d caller).out ++ [slot])) := by
  have hd := h caller hc
  obtain ⟨-, hr⟩ := tryEnqueue_held hd.outgoing hd.outgoing_lock () hh
  rw [update_unit] at hr
  exact h.setOutgoing hr (by simpa [putItBack] using hd.outgoing_lock)

/-- A message without a destination is passed over. -/
theorem forward_none {firstSlot : ℤ} (hdest : destination sys boxes caller slot = none) :
    forward sys caller slot firstSlot boxes = .next ⟨boxes, firstSlot⟩ := by
  unfold destination at hdest
  dsimp only at hdest
  unfold forward
  dsimp only
  split
  · rfl
  · split
    · rfl
    · rename_i hgate _
      rw [Bool.not_eq_false] at hgate
      have hqueue := (ite_eq_right_iff.mp hdest)
      rw [if_pos]
      by_contra hv
      rw [Bool.not_eq_false] at hv
      cases hqueue ⟨hgate, hv⟩

/-- A message with a destination gets as far as the allocation. -/
theorem forward_some {firstSlot : ℤ} {callee : ℕ}
    (hdest : destination sys boxes caller slot = some callee) :
    let queues := (boxes callee).incoming.queues
    let allocated := uvisorPoolTryAllocate queues
    let boxes' := boxes.setIncoming callee allocated.2
    forward sys caller slot firstSlot boxes =
      if allocated.1 < queues.pool.num then
        deliver sys caller callee slot allocated.1 firstSlot boxes'
      else
        .next ⟨boxes'.setOutgoing caller
          (putItBack (boxes' caller).outgoing.queues () slot), firstSlot⟩ := by
  unfold destination at hdest
  dsimp only at hdest
  split at hdest
  · rename_i hv
    obtain ⟨hgate, hqueue⟩ := hv
    have hrange := calleeBoxId_of_valid hgate
    have hcallee := Option.some.inj hdest
    rw [hcallee] at hqueue
    unfold forward
    dsimp only
    rw [if_neg (by simp [hgate]), if_neg (by omega), hcallee, if_neg (by simp [hqueue])]
  · cases hdest

/-- Writing back the outgoing structures of a box changes nothing. -/
theorem setOutgoing_self (boxes : Boxes) (b : ℕ) :
    boxes.setOutgoing b (boxes b).outgoing.queues = boxes := by
  simp [Boxes.setOutgoing]

/-- Writing back the incoming structures of a box changes nothing. -/
theorem setIncoming_self (boxes : Boxes) (b : ℕ) :
    boxes.setIncoming b (boxes b).incoming.queues = boxes := by
  simp [Boxes.setIncoming]

/-- A message to a full callee is put back. -/
theorem forward_full {firstSlot : ℤ} {callee : ℕ} (h : Describes sys boxes d)
    (hdest : destination sys boxes caller slot = some callee) (hfree : (d callee).inFree = []) :
    forward sys caller slot firstSlot boxes =
      .next ⟨boxes.setOutgoing caller (putItBack (boxes caller).outgoing.queues () slot),
        firstSlot⟩ := by
  have hd := h callee ((destination_callee hdest).2)
  have hin := hd.incoming
  rw [hfree] at hin
  have hnum := hin.num_lt
  have hfull : ¬slotInvalid < (boxes callee).incoming.queues.pool.num := by
    simp only [poolMaxValid, slotInvalid] at *
    omega
  rw [forward_some hdest, tryAllocate_nil hin hd.incoming_lock]
  dsimp only
  rw [if_neg hfull, setIncoming_self]

/-- A message to a callee with room is delivered. -/
theorem forward_room (firstSlot : ℤ) {callee fresh : ℕ} {free : List ℕ}
    (h : Describes sys boxes d) (hdest : destination sys boxes caller slot = some callee)
    (hfree : (d callee).inFree = fresh :: free) :
    ∃ boxes', forward sys caller slot firstSlot boxes = .next ⟨boxes', firstSlot⟩ ∧
      Describes sys boxes' (arriving d callee fresh free) ∧
      HandedOver caller slot callee fresh boxes boxes' ∧
      Frame caller (some callee) boxes boxes' ∧
      ∀ b, (boxes' b).outgoing.queues = (boxes b).outgoing.queues := by
  have hlt := (destination_callee hdest).2
  have hd := h callee hlt
  have hin := hd.incoming
  rw [hfree] at hin
  obtain ⟨hfresh, hrepr, hheld⟩ := tryAllocate_cons hin hd.incoming_lock
  rw [forward_some hdest]
  generalize hal : uvisorPoolTryAllocate (boxes callee).incoming.queues = allocated at *
  have hheader : header allocated.2 = header (boxes callee).incoming.queues := by
    rw [← hal, header_uvisorPoolTryAllocate]
  have hlock : allocated.2.pool.spinlock = false := by
    rw [← hal, uvisorPoolTryAllocate_spinlock, hd.incoming_lock]
  have hbound : allocated.1 < (boxes callee).incoming.queues.pool.num := by
    rw [hfresh]
    exact hin.free_lt fresh (by simp)
  rw [if_pos hbound, hfresh]
  obtain ⟨hstatus, henq⟩ := tryEnqueue_held hrepr hlock .todo hheld
  have hgroups : Represents (boxes callee).fnGroups.queues (d callee).groupFree
    (fun _ => (d callee).groups) := hd.fnGroups
  obtain ⟨woken, hwake, hposted⟩ := wakeUpHandlersForTarget_some sys
    (sys.gateway ((boxes caller).outgoing.messages slot).gateway).target hgroups
  unfold deliver
  simp only [setIncoming_outgoing, setIncoming_messages, setOutgoingMessage_incoming,
    setIncomingMessage_queues, setIncoming_queues, if_true, hstatus, ne_eq, not_true_eq_false,
    if_false, setIncoming_fnGroups, setOutgoingMessage_fnGroups, setIncomingMessage_fnGroups]
  rw [hwake]
  refine ⟨_, rfl, ?_, ?_, ?_, ?_⟩
  · have h₁ := h.setIncoming (b := callee) hrepr hlock
    have h₂ := h₁.setIncoming (b := callee) henq (by simpa using hlock)
    rw [Function.update_self, Function.update_idem] at h₂
    refine h₂.congr (fun b => by simp) (fun b => ?_) (fun b => ?_)
    · by_cases hb : b = callee <;> simp [hb]
    · by_cases hb : b = callee <;> simp [hb, hposted.queues]
  · refine ⟨?_, ?_, ?_, ?_⟩
    · exact ⟨by simp [calleeCopy], by simp [calleeCopy], by simp [calleeCopy],
        by simp [calleeCopy], by simp [calleeCopy]⟩
    · simp
    · intro b s hb
      simp [hb]
    · intro b s hb
      simp [hb]
  · refine Frame.setFnGroups ?_ (by simp [hposted.queues]) (by simpa using hposted.same)
    refine Frame.setIncoming ?_ (by simp)
    refine Frame.setOutgoingMessage ?_ caller slot _
    refine Frame.setIncomingMessage ?_ callee fresh _
    exact (Frame.refl boxes).setIncoming hheader
  · intro b
    simp

end Parts

/-! ## Whole passes -/

section Whole

variable {st : DrainState} {d : ℕ → BoxLists} {slot : ℕ} {rest : List ℕ}

/-- The remembered slot after a pass that does not stop. -/
def remembered (firstSlot : ℤ) (slot : ℕ) : ℤ := if firstSlot = -1 then slot else firstSlot

/-- An empty queue stops the loop. -/
theorem pass_empty (h : Describes sys st.boxes d) (hc : caller < sys.boxCount)
    (hq : (d caller).out = []) : drainMessageBody sys caller st = .stop st := by
  have hd := h caller hc
  have hnum := hd.outgoing.num_lt
  have hempty := tryDequeueFirst_nil (q := ()) hd.outgoing hd.outgoing_lock hq
  have hend : (st.boxes caller).outgoing.queues.pool.num ≤ slotInvalid := by
    simp only [poolMaxValid, slotInvalid] at *
    omega
  unfold drainMessageBody
  simp only [hempty, if_pos hend]
  rw [setOutgoing_self]

/-- Boxes after the dequeue at the start of a pass. -/
def dequeuedBoxes (caller : ℕ) (boxes : Boxes) : Boxes :=
  boxes.setOutgoing caller
    (uvisorPoolQueueTryDequeueFirst (boxes caller).outgoing.queues ()).2

/-- A pass that dequeues a message stops on the remembered slot, and otherwise
handles the message. -/
theorem pass_dequeued
    (hs : (uvisorPoolQueueTryDequeueFirst (st.boxes caller).outgoing.queues ()).1 = slot)
    (hlt : slot < (st.boxes caller).outgoing.queues.pool.num) :
    drainMessageBody sys caller st =
      if st.firstSlot = slot then
        .stop ⟨(dequeuedBoxes caller st.boxes).setOutgoing caller
          (putItBack (dequeuedBoxes caller st.boxes caller).outgoing.queues () slot),
          st.firstSlot⟩
      else forward sys caller slot (remembered st.firstSlot slot)
        (dequeuedBoxes caller st.boxes) := by
  unfold drainMessageBody remembered
  dsimp only
  rw [hs, if_neg (Nat.not_le.mpr hlt)]
  by_cases hfirst : st.firstSlot = -1
  · have hne : ¬st.firstSlot = slot := by omega
    rw [if_pos hfirst, if_neg hne, if_pos hfirst]
    rfl
  · rw [if_neg hfirst, if_neg hfirst]
    by_cases hseen : st.firstSlot = slot
    · rw [if_pos hseen.symm, if_pos hseen]
      rfl
    · rw [if_neg (Ne.symm hseen), if_neg hseen]
      rfl

/-- A pass over a non-empty queue handles its first message. -/
theorem pass_cons (h : Describes sys st.boxes d) (hc : caller < sys.boxCount)
    (hq : (d caller).out = slot :: rest) :
    drainMessageBody sys caller st =
      if st.firstSlot = slot then
        .stop ⟨(dequeuedBoxes caller st.boxes).setOutgoing caller
          (putItBack (dequeuedBoxes caller st.boxes caller).outgoing.queues () slot),
          st.firstSlot⟩
      else forward sys caller slot (remembered st.firstSlot slot)
        (dequeuedBoxes caller st.boxes) :=
  pass_dequeued (dequeue_first h hc hq).1
    ((h caller hc).outgoing.lists_lt () slot (by simp [hq]))

/-- The dequeue at the start of a pass takes the slot off the caller's list
and changes nothing else. -/
theorem dequeuedBoxes_spec {boxes : Boxes} (h : Describes sys boxes d) (hc : caller < sys.boxCount)
    (hq : (d caller).out = slot :: rest) :
    Describes sys (dequeuedBoxes caller boxes) (leaving d caller rest) ∧
      Held (dequeuedBoxes caller boxes caller).outgoing.queues (leaving d caller rest caller).outFree
        (fun _ => (leaving d caller rest caller).out) slot ∧
      Frame caller none boxes (dequeuedBoxes caller boxes) := by
  obtain ⟨-, hd, hh⟩ := dequeue_first h hc hq
  refine ⟨hd, ?_, (Frame.refl boxes).setOutgoing (by simp)⟩
  simpa [dequeuedBoxes, leaving] using hh

/-- The dequeue does not change where messages go. -/
theorem destination_dequeuedBoxes (sys : Platform) (caller : ℕ) (boxes : Boxes) (s : ℕ) :
    destination sys (dequeuedBoxes caller boxes) caller s = destination sys boxes caller s := by
  simp [destination, dequeuedBoxes]

/-- Leaving twice is leaving once. -/
theorem leaving_leaving (d : ℕ → BoxLists) (caller : ℕ) (l l' : List ℕ) :
    leaving (leaving d caller l) caller l' = leaving d caller l' := by
  simp [leaving]

/-- Putting the dequeued message back. -/
theorem putBack_spec {boxes : Boxes} (h : Describes sys boxes d) (hc : caller < sys.boxCount)
    (hq : (d caller).out = slot :: rest) :
    let dequeued := dequeuedBoxes caller boxes
    let boxes' := dequeued.setOutgoing caller
      (putItBack (dequeued caller).outgoing.queues () slot)
    let d' := leaving d caller (rest ++ [slot])
    Describes sys boxes' d' ∧ Fared sys caller slot rest boxes boxes' d d' .kept := by
  obtain ⟨hd, hh, hframe⟩ := dequeuedBoxes_spec h hc hq
  have hback := putItBack_describes hd hc hh
  have hout : (leaving d caller rest caller).out = rest := by simp [leaving]
  rw [hout, leaving_leaving] at hback
  refine ⟨hback, rfl, ?_, ?_, hframe.setOutgoing (by simp [putItBack])⟩
  · intro b
    simp [dequeuedBoxes]
  · intro b
    simp [dequeuedBoxes]

/-- Why a message that is not the remembered one fares as it does. -/
def Cause (sys : Platform) (caller slot : ℕ) (boxes : Boxes) (d : ℕ → BoxLists) : Fate → Prop
  | .delivered => ∃ callee, destination sys boxes caller slot = some callee ∧
      (d callee).inFree ≠ []
  | .dropped => destination sys boxes caller slot = none
  | .kept => ∃ callee, destination sys boxes caller slot = some callee ∧ (d callee).inFree = []

/-- There is one cause. -/
theorem Cause.unique {boxes : Boxes} {fate fate' : Fate} (h : Cause sys caller slot boxes d fate)
    (h' : Cause sys caller slot boxes d fate') : fate = fate' := by
  cases hdest : destination sys boxes caller slot with
  | none => cases fate <;> cases fate' <;> simp_all [Cause]
  | some callee => cases fate <;> cases fate' <;> simp_all [Cause]

/-- A message has fared in one way only. -/
theorem Fared.unique {boxes boxes' : Boxes} {d' : ℕ → BoxLists} {fate fate' : Fate}
    (h : Fared sys caller slot rest boxes boxes' d d' fate)
    (h' : Fared sys caller slot rest boxes boxes' d d' fate') : fate = fate' := by
  have hkept : Fared sys caller slot rest boxes boxes' d d' .kept →
      (d' caller).out.length = rest.length+1 := by
    rintro ⟨rfl, -⟩
    simp
  have hdropped : Fared sys caller slot rest boxes boxes' d d' .dropped →
      (d' caller).out.length = rest.length ∧ ∀ b, (d' b).incoming = (d b).incoming := by
    rintro ⟨rfl, -⟩
    exact ⟨by simp, fun b => by simp⟩
  have hdelivered : Fared sys caller slot rest boxes boxes' d d' .delivered →
      (d' caller).out.length = rest.length ∧ ∃ b, (d' b).incoming ≠ (d b).incoming := by
    rintro ⟨callee, fresh, free, -, -, rfl, -⟩
    refine ⟨by simp, callee, fun he => ?_⟩
    have htodo := congrArg List.length (congrFun he .todo)
    simp [arriving] at htodo
  cases fate with
  | delivered =>
    obtain ⟨hlen, b, hb⟩ := hdelivered h
    cases fate' with
    | delivered => rfl
    | dropped => exact absurd ((hdropped h').2 b) hb
    | kept =>
      have hlen' := hkept h'
      omega
  | dropped =>
    obtain ⟨hlen, hin⟩ := hdropped h
    cases fate' with
    | delivered =>
      obtain ⟨-, b, hb⟩ := hdelivered h'
      exact absurd (hin b) hb
    | dropped => rfl
    | kept =>
      have hlen' := hkept h'
      omega
  | kept =>
    have hlen := hkept h
    cases fate' with
    | delivered =>
      have hlen' := (hdelivered h').1
      omega
    | dropped =>
      have hlen' := (hdropped h').1
      omega
    | kept => rfl

/-- A dequeued message whose callee has room is delivered. -/
theorem forward_delivers {boxes : Boxes} (h : Describes sys boxes d) (hc : caller < sys.boxCount)
    (hq : (d caller).out = slot :: rest) {callee fresh : ℕ} {free : List ℕ}
    (hdest : destination sys boxes caller slot = some callee)
    (hroom : (d callee).inFree = fresh :: free) (firstSlot : ℤ) :
    ∃ boxes', forward sys caller slot firstSlot (dequeuedBoxes caller boxes) =
        .next ⟨boxes', firstSlot⟩ ∧
      Describes sys boxes' (arriving (leaving d caller rest) callee fresh free) ∧
      Fared sys caller slot rest boxes boxes' d
        (arriving (leaving d caller rest) callee fresh free) .delivered := by
  obtain ⟨hd, hh, hframe⟩ := dequeuedBoxes_spec h hc hq
  have hsame := (destination_dequeuedBoxes sys caller boxes slot).trans hdest
  obtain ⟨boxes', hforward, hd', hover, hframe', hqueues⟩ :=
    forward_room firstSlot hd hsame (by simpa using hroom)
  refine ⟨boxes', hforward, hd', callee, fresh, free, (destination_callee hdest).1, hroom, rfl,
    ?_, ?_, hframe.trans hframe'⟩
  · rw [hqueues]
    simpa using hh
  · obtain ⟨hcopied, horiginal, hout, hin⟩ := hover
    simp only [dequeuedBoxes, setOutgoing_messages] at hcopied horiginal
    refine ⟨hcopied, horiginal, fun b s hb => ?_, fun b s hb => ?_⟩
    · simpa [dequeuedBoxes] using hout b s hb
    · simpa [dequeuedBoxes] using hin b s hb

/-- A dequeued message without a destination is dropped. -/
theorem dequeuedBoxes_dropped {boxes : Boxes} (h : Describes sys boxes d)
    (hc : caller < sys.boxCount) (hq : (d caller).out = slot :: rest) :
    Fared sys caller slot rest boxes (dequeuedBoxes caller boxes) d (leaving d caller rest)
      .dropped := by
  obtain ⟨-, hh, hframe⟩ := dequeuedBoxes_spec h hc hq
  exact ⟨rfl, hh, fun b => by simp [dequeuedBoxes], fun b => by simp [dequeuedBoxes], hframe⟩

/-- What a pass that handles a message does: the cause decides. -/
theorem pass_fares (h : Describes sys st.boxes d) (hc : caller < sys.boxCount)
    (hq : (d caller).out = slot :: rest) (hne : st.firstSlot ≠ slot) :
    ∃ boxes' d' fate, drainMessageBody sys caller st =
        .next ⟨boxes', remembered st.firstSlot slot⟩ ∧
      Describes sys boxes' d' ∧ Fared sys caller slot rest st.boxes boxes' d d' fate ∧
      Cause sys caller slot st.boxes d fate := by
  obtain ⟨hd, -, -⟩ := dequeuedBoxes_spec h hc hq
  have hdest := destination_dequeuedBoxes sys caller st.boxes slot
  rw [pass_cons h hc hq, if_neg hne]
  cases hcallee : destination sys st.boxes caller slot with
  | none =>
    rw [hcallee] at hdest
    rw [forward_none hdest]
    exact ⟨_, _, .dropped, rfl, hd, dequeuedBoxes_dropped h hc hq, hcallee⟩
  | some callee =>
    rw [hcallee] at hdest
    cases hroom : (d callee).inFree with
    | nil =>
      rw [forward_full hd hdest (by simpa using hroom)]
      obtain ⟨hback, hfared⟩ := putBack_spec h hc hq
      exact ⟨_, _, .kept, rfl, hback, hfared, callee, hcallee, hroom⟩
    | cons fresh free =>
      obtain ⟨boxes', hforward, hd', hfared⟩ := forward_delivers h hc hq hcallee hroom
        (remembered st.firstSlot slot)
      exact ⟨boxes', _, .delivered, hforward, hd', hfared, callee, hcallee, by simp [hroom]⟩

/-- However a message fares, the gateways of the caller's messages and the
queue headers stay. -/
theorem Fared.gateway {boxes boxes' : Boxes} {d' : ℕ → BoxLists} {fate : Fate}
    (h : Fared sys caller slot rest boxes boxes' d d' fate) :
    (∀ s, ((boxes' caller).outgoing.messages s).gateway =
        ((boxes caller).outgoing.messages s).gateway) ∧
      ∀ b, header (boxes' b).incoming.queues = header (boxes b).incoming.queues := by
  cases fate with
  | delivered =>
    obtain ⟨callee, fresh, free, -, -, -, -, hover, hframe⟩ := h
    refine ⟨fun s => ?_, hframe.incoming_header⟩
    by_cases hs : s = slot
    · subst hs
      rw [hover.original]
    · rw [hover.outgoing caller s (fun hh => hs hh.2)]
  | dropped =>
    obtain ⟨-, -, hout, -, hframe⟩ := h
    exact ⟨fun s => by rw [hout caller], hframe.incoming_header⟩
  | kept =>
    obtain ⟨-, hout, -, hframe⟩ := h
    exact ⟨fun s => by rw [hout caller], hframe.incoming_header⟩

/-- A pass does not change where messages go. -/
theorem Fared.destination_eq {boxes boxes' : Boxes} {d' : ℕ → BoxLists} {fate : Fate}
    (h : Fared sys caller slot rest boxes boxes' d d' fate) (s : ℕ) :
    destination sys boxes' caller s = destination sys boxes caller s := by
  obtain ⟨hgateway, hheader⟩ := h.gateway
  unfold destination
  dsimp only
  rw [hgateway s]
  rw [isValidQueue_congr sys _ _ (congrFun (hheader _) .todo)]

/-- The caller's list after a pass. -/
theorem Fared.out_eq {boxes boxes' : Boxes} {d' : ℕ → BoxLists} {fate : Fate}
    (h : Fared sys caller slot rest boxes boxes' d d' fate) :
    (d' caller).out = if fate = .kept then rest ++ [slot] else rest := by
  cases fate with
  | delivered =>
    obtain ⟨callee, fresh, free, -, -, rfl, -⟩ := h
    simp
  | dropped =>
    obtain ⟨rfl, -⟩ := h
    simp
  | kept =>
    obtain ⟨rfl, -⟩ := h
    simp

/-- A remembered slot that is still queued holds a message with a
destination, since only those are put back. -/
def Remembers (sys : Platform) (caller : ℕ) (st : DrainState) (d : ℕ → BoxLists) : Prop :=
  ∀ f : ℕ, st.firstSlot = f → f ∈ (d caller).out → destination sys st.boxes caller f ≠ none

/-- What holds whenever control is at the head of the loop. -/
def AtHead (sys : Platform) (caller : ℕ) (st : DrainState) : Prop :=
  ∃ d, Describes sys st.boxes d ∧ Remembers sys caller st d

/-- A pass that goes round again comes back to the head of the loop. -/
theorem atHead_next (hc : caller < sys.boxCount) {t : DrainState} (h : AtHead sys caller st)
    (hb : drainMessageBody sys caller st = .next t) : AtHead sys caller t := by
  obtain ⟨d, hd, hrem⟩ := h
  cases hq : (d caller).out with
  | nil =>
    rw [pass_empty hd hc hq] at hb
    cases hb
  | cons slot rest =>
    by_cases hseen : st.firstSlot = slot
    · rw [pass_cons hd hc hq, if_pos hseen] at hb
      cases hb
    · obtain ⟨boxes', d', fate, hbody, hd', hfared, hcause⟩ := pass_fares hd hc hq hseen
      rw [hbody] at hb
      cases hb
      refine ⟨d', hd', fun f hf hmem => ?_⟩
      rw [hfared.destination_eq]
      rw [hfared.out_eq] at hmem
      have hnd := (hd caller hc).outgoing.nodup ()
      rw [hq] at hnd
      have hslot : slot ∉ rest := (List.nodup_cons.mp hnd).1
      by_cases hfs : f = slot
      · subst hfs
        have hkept : fate = .kept := by
          by_contra hk
          rw [if_neg hk] at hmem
          exact hslot hmem
        subst hkept
        obtain ⟨callee, hdest, -⟩ := hcause
        simp [hdest]
      · have hold : st.firstSlot = f := by
          dsimp only [remembered] at hf
          split at hf
          · omega
          · exact hf
        apply hrem f hold
        rw [hq]
        split at hmem
        · simp only [List.mem_append, List.mem_singleton] at hmem
          rcases hmem with hmem | hmem
          · exact List.mem_cons_of_mem _ hmem
          · exact absurd hmem hfs
        · exact List.mem_cons_of_mem _ hmem

end Whole

/-! ## A crowded callee -/

/-- Box 0 has queued two calls, and box 1 has received some. -/
theorem queuedCalls_describes (first second : Message) (received free : List ℕ)
    (hall : received ++ free = List.range incomingMessageSlots) :
    let boxes := bootedBoxes.setOutgoing 0 ((queueFresh ())^[2] (bootedBoxes 0).outgoing.queues)
    let boxes := boxes.setIncoming 1
      ((queueFresh .todo)^[received.length] (bootedBoxes 1).incoming.queues)
    let d := Function.update (fun _ => initialLists) 0
      {initialLists with outFree := [2, 3, 4, 5, 6, 7], out := [0, 1]}
    Describes threeBoxes ((boxes.setOutgoingMessage 0 0 first).setOutgoingMessage 0 1 second)
      (Function.update d 1 {d 1 with
        inFree := free, incoming := Function.update (d 1).incoming .todo received}) := by
  have hboot := bootedBoxes_describes
  obtain ⟨hout, hlock⟩ := queueFresh_iterate [0, 1] [2, 3, 4, 5, 6, 7]
    (hboot 0 (by decide)).outgoing (hboot 0 (by decide)).outgoing_lock ()
  have hincoming := (hboot 1 (by decide)).incoming
  change PoolInvariant.Represents _ (List.range incomingMessageSlots) _ at hincoming
  rw [← hall] at hincoming
  obtain ⟨hin, hlock'⟩ := queueFresh_iterate received free hincoming
    (hboot 1 (by decide)).incoming_lock .todo
  rw [update_unit] at hout
  refine ((hboot.setOutgoing hout hlock).setIncoming hin hlock').congr ?_ ?_ ?_
  · intro b
    simp only [setOutgoingMessage_queues]
    rfl
  · intro b
    simp only [setOutgoingMessage_incoming]
    rfl
  · intro b
    simp only [setOutgoingMessage_fnGroups]
    rfl

/-- Boxes in which box 0 has queued two calls of box 1, whose pool has one
slot left. -/
def crowdedBoxes : Boxes :=
  let first := populated ((bootedBoxes 0).outgoing.messages 0) ⟨1, 2, 3, 4, 0x2000⟩ 0x800 0
  let second := populated ((bootedBoxes 0).outgoing.messages 1) ⟨5, 6, 7, 8, 0x2000⟩ 0x1000 1
  let boxes := bootedBoxes.setOutgoing 0 ((queueFresh ())^[2] (bootedBoxes 0).outgoing.queues)
  let boxes := boxes.setIncoming 1 ((queueFresh .todo)^[7] (bootedBoxes 1).incoming.queues)
  (boxes.setOutgoingMessage 0 0 first).setOutgoingMessage 0 1 second

/-- Lists of the crowded boxes. -/
def crowdedLists : ℕ → BoxLists :=
  let d := Function.update (fun _ => initialLists) 0
    {initialLists with outFree := [2, 3, 4, 5, 6, 7], out := [0, 1]}
  Function.update d 1 {d 1 with
    inFree := [7], incoming := Function.update (d 1).incoming .todo [0, 1, 2, 3, 4, 5, 6]}

theorem crowdedBoxes_describes : Describes threeBoxes crowdedBoxes crowdedLists :=
  queuedCalls_describes _ _ [0, 1, 2, 3, 4, 5, 6] [7] rfl

/-- Both calls go to box 1. -/
theorem crowdedBoxes_destination :
    ∀ slot ∈ [0, 1], destination threeBoxes crowdedBoxes 0 slot = some 1 := by
  decide

/-! ## Conservation of messages -/

/-- In every pass of a call of the drain, the dequeued message fares in
exactly one way. It is put back exactly when it is the remembered one or its
callee has no free slot, and dropped exactly when its gateway or the queue of
its callee fails validation. All pools stay well formed. -/
theorem drainMessageBody_conserves {sys : Platform} {caller : ℕ} {boxes : Boxes}
    {d₀ : ℕ → BoxLists} (hc : caller < sys.boxCount) (hboxes : Describes sys boxes d₀)
    {st : DrainState} (hv : Visits (drainMessageBody sys caller) ⟨boxes, -1⟩ st) :
    ∃ d, Describes sys st.boxes d ∧ ∀ slot rest, (d caller).out = slot :: rest →
      ∃ boxes' firstSlot d',
        (drainMessageBody sys caller st = .next ⟨boxes', firstSlot⟩ ∨
          drainMessageBody sys caller st = .stop ⟨boxes', firstSlot⟩) ∧
        Describes sys boxes' d' ∧
        (∃! fate, Fared sys caller slot rest st.boxes boxes' d d' fate) ∧
        (Fared sys caller slot rest st.boxes boxes' d d' .kept ↔
          st.firstSlot = slot ∨ ∃ callee,
            destination sys st.boxes caller slot = some callee ∧ (d callee).inFree = []) ∧
        (Fared sys caller slot rest st.boxes boxes' d d' .dropped ↔
          destination sys st.boxes caller slot = none) := by
  have hentry : AtHead sys caller ⟨boxes, -1⟩ :=
    ⟨d₀, hboxes, fun f hf => by dsimp only at hf; omega⟩
  obtain ⟨d, hd, hrem⟩ := hv.invariant (AtHead sys caller) hentry fun s t hs hb =>
    atHead_next hc hs hb
  refine ⟨d, hd, fun slot rest hq => ?_⟩
  by_cases hseen : st.firstSlot = slot
  · obtain ⟨hback, hfared⟩ := putBack_spec hd hc hq
    have hbody := pass_cons hd hc hq
    rw [if_pos hseen] at hbody
    have hdest := hrem slot hseen (by simp [hq])
    refine ⟨_, _, _, Or.inr hbody, hback, ⟨.kept, hfared, fun fate hf => hf.unique hfared⟩,
      iff_of_true hfared (Or.inl hseen), iff_of_false (fun hf => ?_) hdest⟩
    cases hf.unique hfared
  · obtain ⟨boxes', d', fate, hbody, hd', hfared, hcause⟩ := pass_fares hd hc hq hseen
    refine ⟨boxes', _, d', Or.inl hbody, hd', ⟨fate, hfared, fun fate' hf => hf.unique hfared⟩,
      ?_, ?_⟩
    · constructor
      · intro hk
        rw [hfared.unique hk] at hcause
        exact Or.inr hcause
      · rintro (hs | hk)
        · exact absurd hs hseen
        · have hkept : Cause sys caller slot st.boxes d .kept := hk
          rwa [hcause.unique hkept] at hfared
    · constructor
      · intro hdrop
        rw [hfared.unique hdrop] at hcause
        exact hcause
      · intro hnone
        have hdropped : Cause sys caller slot st.boxes d .dropped := hnone
        rwa [hcause.unique hdropped] at hfared

end Passes

/-- The first pass over the crowded boxes decides the fate of one message. -/
theorem drainMessageBody_conserves_crowded :
    ∃ d, Describes threeBoxes crowdedBoxes d ∧ ∀ slot rest, (d 0).out = slot :: rest →
      ∃ boxes' d', Describes threeBoxes boxes' d' ∧
        ∃! fate, Fared threeBoxes 0 slot rest crowdedBoxes boxes' d d' fate := by
  obtain ⟨d, hd, hpass⟩ := drainMessageBody_conserves (by decide : 0 < threeBoxes.boxCount)
    crowdedBoxes_describes Visits.entry
  refine ⟨d, hd, fun slot rest hq => ?_⟩
  obtain ⟨boxes', firstSlot, d', -, hd', hfate, -⟩ := hpass slot rest hq
  exact ⟨boxes', d', hd', hfate⟩

end Uvisor.RpcDrain
