import Uvisor.IpcTermination

/-!
# What one iteration of the IPC drain does

An iteration takes one send request out of the queue. It ends in one of five
ways: the request is dropped, it goes back, it goes back and a receive request
that is not the receiver's own is lost, both requests go back because a token
lock is held, or the message is delivered. Nothing is assumed about the locks
and about the requests. Only a delivery writes anything but queues.
-/

namespace Uvisor.IpcPasses

open PoolQueue PoolInvariant PoolOperations Ipc IpcTermination Execution

/-! ## Lists of all boxes -/

section Lists

variable (d : ℕ → BoxLists) (b c : ℕ) (free l : List ℕ)

/-- The lists with another send pool in one box. -/
def withSend : ℕ → BoxLists := Function.update d b {d b with sendFree := free, send := l}

/-- The lists with another receive pool in one box. -/
def withRecv : ℕ → BoxLists := Function.update d b {d b with recvFree := free, recv := l}

@[simp] theorem withSend_send :
    (withSend d b free l c).send = if c = b then l else (d c).send := by
  by_cases h : c = b
  · subst h
    simp [withSend]
  · simp [withSend, h]

@[simp] theorem withSend_sendFree :
    (withSend d b free l c).sendFree = if c = b then free else (d c).sendFree := by
  by_cases h : c = b
  · subst h
    simp [withSend]
  · simp [withSend, h]

@[simp] theorem withSend_recv : (withSend d b free l c).recv = (d c).recv := by
  by_cases h : c = b
  · subst h
    simp [withSend]
  · simp [withSend, h]

@[simp] theorem withSend_recvFree : (withSend d b free l c).recvFree = (d c).recvFree := by
  by_cases h : c = b
  · subst h
    simp [withSend]
  · simp [withSend, h]

@[simp] theorem withRecv_recv :
    (withRecv d b free l c).recv = if c = b then l else (d c).recv := by
  by_cases h : c = b
  · subst h
    simp [withRecv]
  · simp [withRecv, h]

@[simp] theorem withRecv_recvFree :
    (withRecv d b free l c).recvFree = if c = b then free else (d c).recvFree := by
  by_cases h : c = b
  · subst h
    simp [withRecv]
  · simp [withRecv, h]

@[simp] theorem withRecv_send : (withRecv d b free l c).send = (d c).send := by
  by_cases h : c = b
  · subst h
    simp [withRecv]
  · simp [withRecv, h]

@[simp] theorem withRecv_sendFree : (withRecv d b free l c).sendFree = (d c).sendFree := by
  by_cases h : c = b
  · subst h
    simp [withRecv]
  · simp [withRecv, h]

theorem lists_ext {d d' : ℕ → BoxLists} (h : ∀ b, (d b).sendFree = (d' b).sendFree ∧
    (d b).send = (d' b).send ∧ (d b).recvFree = (d' b).recvFree ∧ (d b).recv = (d' b).recv) :
    d = d' := by
  funext b
  obtain ⟨hsendFree, hsend, hrecvFree, hrecv⟩ := h b
  cases hd : d b
  cases hd' : d' b
  simp_all

/-- The two pools of a box are independent. -/
theorem withSend_withRecv (b' : ℕ) (free' l' : List ℕ) :
    withSend (withRecv d b free l) b' free' l' = withRecv (withSend d b' free' l') b free l :=
  lists_ext fun c => by simp

theorem withSend_withSend (free' l' : List ℕ) :
    withSend (withSend d b free l) b free' l' = withSend d b free' l' := by
  refine lists_ext fun c => ?_
  by_cases hc : c = b <;> simp [hc]

theorem withRecv_withRecv (free' l' : List ℕ) :
    withRecv (withRecv d b free l) b free' l' = withRecv d b free' l' := by
  refine lists_ext fun c => ?_
  by_cases hc : c = b <;> simp [hc]

end Lists

/-- The pools of every box are well formed, whoever holds their locks. -/
def Queued (sys : Platform) (mem : Memory) (d : ℕ → BoxLists) : Prop :=
  ∀ b < sys.boxCount,
    Represents (mem.box b).sendQueue (d b).sendFree (fun _ => (d b).send) ∧
      Represents (mem.box b).recvQueue (d b).recvFree (fun _ => (d b).recv)

/-- The order of queues and completed tokens apart, the boxes are the same. -/
structure SameBoxes (mem mem' : Memory) : Prop where
  /-- The send requests are the same. -/
  sendIo : ∀ b, (mem'.box b).sendIo = (mem.box b).sendIo
  /-- The receive requests are the same. -/
  recvIo : ∀ b, (mem'.box b).recvIo = (mem.box b).recvIo
  /-- The token locks are the same. -/
  tokensLock : ∀ b, (mem'.box b).tokensLock = (mem.box b).tokensLock
  /-- The allocated tokens are the same. -/
  allocatedTokens : ∀ b, (mem'.box b).allocatedTokens = (mem.box b).allocatedTokens
  /-- The headers of the send queues are the same. -/
  sendHeader : ∀ b, header (mem'.box b).sendQueue = header (mem.box b).sendQueue
  /-- The headers of the receive queues are the same. -/
  recvHeader : ∀ b, header (mem'.box b).recvQueue = header (mem.box b).recvQueue

/-- Nothing but queues differs between two memories. -/
structure OnlyQueues (mem mem' : Memory) : Prop extends SameBoxes mem mem' where
  /-- The descriptors are the same. -/
  desc : mem'.desc = mem.desc
  /-- The buffers are the same. -/
  byte : mem'.byte = mem.byte
  /-- The completed tokens are the same. -/
  completedTokens : ∀ b, (mem'.box b).completedTokens = (mem.box b).completedTokens

/-- A field that the new state of a box shares with the old one. -/
theorem setBox_field {β : Type} (f : BoxIpc → β) {mem : Memory} {b : ℕ} {ipc : BoxIpc}
    (h : f ipc = f (mem.box b)) (c : ℕ) : f ((mem.setBox b ipc).box c) = f (mem.box c) := by
  by_cases hc : c = b
  · subst hc
    simpa [Memory.setBox] using h
  · simp [Memory.setBox, hc]

section Writes

variable {sys : Platform} {mem mem' mem'' : Memory} {d : ℕ → BoxLists}

theorem SameBoxes.refl (mem : Memory) : SameBoxes mem mem :=
  ⟨fun _ => rfl, fun _ => rfl, fun _ => rfl, fun _ => rfl, fun _ => rfl, fun _ => rfl⟩

theorem SameBoxes.trans (h : SameBoxes mem mem') (h' : SameBoxes mem' mem'') :
    SameBoxes mem mem'' where
  sendIo b := (h'.sendIo b).trans (h.sendIo b)
  recvIo b := (h'.recvIo b).trans (h.recvIo b)
  tokensLock b := (h'.tokensLock b).trans (h.tokensLock b)
  allocatedTokens b := (h'.allocatedTokens b).trans (h.allocatedTokens b)
  sendHeader b := (h'.sendHeader b).trans (h.sendHeader b)
  recvHeader b := (h'.recvHeader b).trans (h.recvHeader b)

theorem OnlyQueues.refl (mem : Memory) : OnlyQueues mem mem :=
  ⟨SameBoxes.refl mem, rfl, rfl, fun _ => rfl⟩

theorem OnlyQueues.trans (h : OnlyQueues mem mem') (h' : OnlyQueues mem' mem'') :
    OnlyQueues mem mem'' where
  toSameBoxes := h.toSameBoxes.trans h'.toSameBoxes
  desc := h'.desc.trans h.desc
  byte := h'.byte.trans h.byte
  completedTokens b := (h'.completedTokens b).trans (h.completedTokens b)

theorem onlyQueues_setSendQueue {b : ℕ} {q : PoolQueues Unit}
    (h : header q = header (mem.box b).sendQueue) : OnlyQueues mem (mem.setSendQueue b q) where
  desc := rfl
  byte := rfl
  sendIo := setBox_field BoxIpc.sendIo rfl
  recvIo := setBox_field BoxIpc.recvIo rfl
  tokensLock := setBox_field BoxIpc.tokensLock rfl
  allocatedTokens := setBox_field BoxIpc.allocatedTokens rfl
  sendHeader := setBox_field (fun ipc => header ipc.sendQueue) h
  recvHeader := setBox_field (fun ipc => header ipc.recvQueue) rfl
  completedTokens := setBox_field BoxIpc.completedTokens rfl

theorem onlyQueues_setRecvQueue {b : ℕ} {q : PoolQueues Unit}
    (h : header q = header (mem.box b).recvQueue) : OnlyQueues mem (mem.setRecvQueue b q) where
  desc := rfl
  byte := rfl
  sendIo := setBox_field BoxIpc.sendIo rfl
  recvIo := setBox_field BoxIpc.recvIo rfl
  tokensLock := setBox_field BoxIpc.tokensLock rfl
  allocatedTokens := setBox_field BoxIpc.allocatedTokens rfl
  sendHeader := setBox_field (fun ipc => header ipc.sendQueue) rfl
  recvHeader := setBox_field (fun ipc => header ipc.recvQueue) h
  completedTokens := setBox_field BoxIpc.completedTokens rfl

@[simp] theorem setSendQueue_sendQueue (mem : Memory) (b c : ℕ) (q : PoolQueues Unit) :
    ((mem.setSendQueue b q).box c).sendQueue = if c = b then q else (mem.box c).sendQueue := by
  by_cases hc : c = b
  · subst hc
    simp [Memory.setSendQueue, Memory.setBox]
  · simp [Memory.setSendQueue, Memory.setBox, hc]

@[simp] theorem setSendQueue_recvQueue (mem : Memory) (b c : ℕ) (q : PoolQueues Unit) :
    ((mem.setSendQueue b q).box c).recvQueue = (mem.box c).recvQueue :=
  setBox_field BoxIpc.recvQueue (by rfl) c

@[simp] theorem setRecvQueue_recvQueue (mem : Memory) (b c : ℕ) (q : PoolQueues Unit) :
    ((mem.setRecvQueue b q).box c).recvQueue = if c = b then q else (mem.box c).recvQueue := by
  by_cases hc : c = b
  · subst hc
    simp [Memory.setRecvQueue, Memory.setBox]
  · simp [Memory.setRecvQueue, Memory.setBox, hc]

@[simp] theorem setRecvQueue_sendQueue (mem : Memory) (b c : ℕ) (q : PoolQueues Unit) :
    ((mem.setRecvQueue b q).box c).sendQueue = (mem.box c).sendQueue :=
  setBox_field BoxIpc.sendQueue (by rfl) c

/-- A box gets another well-formed send pool. -/
theorem Queued.setSendQueue (h : Queued sys mem d) (b : ℕ) {q : PoolQueues Unit}
    {free l : List ℕ} (hr : Represents q free (fun _ => l)) :
    Queued sys (mem.setSendQueue b q) (withSend d b free l) := by
  intro c hc
  obtain ⟨hsend, hrecv⟩ := h c hc
  by_cases hcb : c = b
  · simpa [hcb] using ⟨hr, hcb ▸ hrecv⟩
  · simpa [hcb] using ⟨hsend, hrecv⟩

/-- A box gets another well-formed receive pool. -/
theorem Queued.setRecvQueue (h : Queued sys mem d) (b : ℕ) {q : PoolQueues Unit}
    {free l : List ℕ} (hr : Represents q free (fun _ => l)) :
    Queued sys (mem.setRecvQueue b q) (withRecv d b free l) := by
  intro c hc
  obtain ⟨hsend, hrecv⟩ := h c hc
  by_cases hcb : c = b
  · simpa [hcb] using ⟨hcb ▸ hsend, hr⟩
  · simpa [hcb] using ⟨hsend, hrecv⟩

end Writes

/-! ## Matching -/

/-- Whether a receive request may take a message, given both descriptors. -/
structure Fits (sendBox : ℕ) (sendDesc recvDesc : Desc) : Prop where
  /-- The sender, or any box, is permitted. -/
  permitted : recvDesc.boxId = sendBox ∨ recvDesc.boxId = boxIdInvalid
  /-- The ports are the same. -/
  port : sendDesc.port = recvDesc.port
  /-- There is room for the message. -/
  room : sendDesc.len ≤ recvDesc.len

/-- The match of the source is fitness of a request that is ready. -/
theorem recvMatch_iff (sendBox : ℕ) (sendDesc recvDesc : Desc) (recvState : IoState) :
    recvMatch sendBox sendDesc recvDesc recvState = true ↔
      recvState = .readyToRecv ∧ Fits sendBox sendDesc recvDesc := by
  unfold recvMatch
  constructor
  · intro h
    split_ifs at h with hstate hbox hport hlen
    refine ⟨not_not.mp hstate, ?_, not_not.mp hport, by omega⟩
    by_cases hany : recvDesc.boxId = boxIdInvalid
    · exact Or.inr hany
    · exact Or.inl (by_contra fun hne => hbox ⟨fun he => hne he.symm, hany⟩)
  · rintro ⟨hstate, hpermitted, hport, hroom⟩
    rw [if_neg (not_not.mpr hstate), if_neg, if_neg (not_not.mpr hport), if_neg (by omega)]
    rintro ⟨hbox, hany⟩
    exact hpermitted.elim (fun he => hbox he.symm) hany

/-! ## Requests in hand -/

section InHand

variable {sys : Platform} {mem : Memory} {d : ℕ → BoxLists} {sendBox slot recvBox recvSlot : ℕ}

/-- A send request has been dequeued. -/
structure HoldsSend (mem : Memory) (d : ℕ → BoxLists) (sendBox slot : ℕ) : Prop where
  /-- The slot is in no list. -/
  held : Held (mem.box sendBox).sendQueue (d sendBox).sendFree (fun _ => (d sendBox).send) slot
  /-- The lock of the pool is free. -/
  lock : (mem.box sendBox).sendQueue.pool.spinlock = false

/-- A receive request has been dequeued. -/
structure HoldsRecv (mem : Memory) (d : ℕ → BoxLists) (recvBox slot : ℕ) : Prop where
  /-- The slot is in no list. -/
  held : Held (mem.box recvBox).recvQueue (d recvBox).recvFree (fun _ => (d recvBox).recv) slot
  /-- The lock of the pool is free. -/
  lock : (mem.box recvBox).recvQueue.pool.spinlock = false

/-- A send request does not care about another receive pool. -/
theorem HoldsSend.setRecvQueue (h : HoldsSend mem d sendBox slot) (b : ℕ) (q : PoolQueues Unit)
    (free l : List ℕ) :
    HoldsSend (mem.setRecvQueue b q) (withRecv d b free l) sendBox slot := by
  constructor
  · simpa using h.held
  · simpa using h.lock

/-- A receive request does not care about another send pool. -/
theorem HoldsRecv.setSendQueue (h : HoldsRecv mem d recvBox slot) (b : ℕ) (q : PoolQueues Unit)
    (free l : List ℕ) :
    HoldsRecv (mem.setSendQueue b q) (withSend d b free l) recvBox slot := by
  constructor
  · simpa using h.held
  · simpa using h.lock

/-- A send request put back is the last one. -/
theorem Queued.putSendBack (h : Queued sys mem d) (hb : sendBox < sys.boxCount)
    (hs : HoldsSend mem d sendBox slot) :
    Queued sys (putSendBack mem sendBox slot)
      (withSend d sendBox (d sendBox).sendFree ((d sendBox).send ++ [slot])) := by
  have hr := (tryEnqueue_held (h sendBox hb).1 hs.lock () hs.held).2
  rw [update_unit] at hr
  exact h.setSendQueue sendBox hr

/-- A receive request put back is the last one. -/
theorem Queued.putRecvBack (h : Queued sys mem d) (hb : recvBox < sys.boxCount)
    (hs : HoldsRecv mem d recvBox slot) :
    Queued sys (putRecvBack mem recvBox slot)
      (withRecv d recvBox (d recvBox).recvFree ((d recvBox).recv ++ [slot])) := by
  have hr := (tryEnqueue_held (h recvBox hb).2 hs.lock () hs.held).2
  rw [update_unit] at hr
  exact h.setRecvQueue recvBox hr

theorem onlyQueues_putSendBack (mem : Memory) (b slot : ℕ) :
    OnlyQueues mem (putSendBack mem b slot) := onlyQueues_setSendQueue (by simp)

theorem onlyQueues_putRecvBack (mem : Memory) (b slot : ℕ) :
    OnlyQueues mem (putRecvBack mem b slot) := onlyQueues_setRecvQueue (by simp)

/-- Both slots of a pair become free. -/
theorem Queued.freePair (h : Queued sys mem d) (hb : sendBox < sys.boxCount)
    (hc : recvBox < sys.boxCount) (hs : HoldsSend mem d sendBox slot)
    (hr : HoldsRecv mem d recvBox recvSlot) :
    Queued sys (freePair sendBox slot recvBox recvSlot mem)
      (withRecv (withSend d sendBox (slot :: (d sendBox).sendFree) (d sendBox).send) recvBox
        (recvSlot :: (d recvBox).recvFree) (d recvBox).recv) := by
  obtain ⟨-, hsent⟩ := tryFree_held (h sendBox hb).1 hs.lock hs.held
  have h' := h.setSendQueue sendBox hsent
  have hr' := hr.setSendQueue sendBox (uvisorPoolTryFree (mem.box sendBox).sendQueue slot).2
    (slot :: (d sendBox).sendFree) (d sendBox).send
  obtain ⟨-, hreceived⟩ := tryFree_held (h' recvBox hc).2 hr'.lock hr'.held
  simp only [withSend_recv, withSend_recvFree] at hreceived
  exact h'.setRecvQueue recvBox hreceived

theorem onlyQueues_freePair (mem : Memory) (b slot c recvSlot : ℕ) :
    OnlyQueues mem (freePair b slot c recvSlot mem) :=
  (onlyQueues_setSendQueue (by simp)).trans (onlyQueues_setRecvQueue (by simp))

end InHand

/-! ## Delivering a pair -/

section Deliver

variable {mem : Memory} {sendBox recvBox : ℕ} (sendIo recvIo : Io)

/-- The delivery fails without a trace when a token lock is held. -/
theorem ipcDeliver_refused
    (h : (mem.box sendBox).tokensLock = true ∨ (mem.box recvBox).tokensLock = true) :
    ipcDeliver sendBox recvBox sendIo recvIo mem = (-1, mem) := by
  cases hs : (mem.box sendBox).tokensLock with
  | true =>
    have hself : {mem.box sendBox with tokensLock := true} = mem.box sendBox := by
      rw [← hs]
    simp [ipcDeliver, uvisorSpinTrylock, hs, Memory.setTokensLock, Memory.setBox, hself]
  | false =>
    have hr : (mem.box recvBox).tokensLock = true := by simpa [hs] using h
    have hne : recvBox ≠ sendBox := by
      intro he
      rw [he, hs] at hr
      cases hr
    have hself : {mem.box sendBox with tokensLock := false} = mem.box sendBox := by
      rw [← hs]
    simp [ipcDeliver, uvisorSpinTrylock, uvisorSpinUnlock, hs, hr, hne, Memory.setTokensLock,
      Memory.setBox, hself]

/-- State of a box after a delivery. -/
def delivered (mem : Memory) (sendBox recvBox : ℕ) (sendIo recvIo : Io) (b : ℕ) : BoxIpc :=
  {mem.box b with
    completedTokens := (mem.box b).completedTokens |||
      (if b = sendBox then (mem.desc sendIo.desc).token else 0) |||
      (if b = recvBox then (mem.desc recvIo.desc).token else 0)}

/-- With the locks free, a delivery copies the message, rewrites the receive
descriptor and marks the two tokens. -/
theorem ipcDeliver_delivers (hsend : (mem.box sendBox).tokensLock = false)
    (hrecv : (mem.box recvBox).tokensLock = false) :
    ipcDeliver sendBox recvBox sendIo recvIo mem =
      (0, ⟨delivered mem sendBox recvBox sendIo recvIo,
        Function.update mem.desc recvIo.desc {mem.desc recvIo.desc with
          boxId := sendBox, len := (mem.desc sendIo.desc).len},
        memcpy mem.byte recvIo.msg sendIo.msg (mem.desc sendIo.desc).len⟩) := by
  by_cases hbox : recvBox = sendBox
  · subst hbox
    simp only [ipcDeliver, uvisorSpinTrylock, hsend, if_true, Bool.true_eq_false, if_false, ne_eq,
      not_true_eq_false, false_and, Prod.mk.injEq, true_and]
    simp only [Memory.setTokensLock, Memory.setBox, transfer, Memory.completeToken]
    congr 1
    funext b
    by_cases hb : b = recvBox
    · subst hb
      simp [delivered, uvisorSpinUnlock, hsend]
    · simp [delivered, hb]
  · have hlock : ((mem.setTokensLock sendBox true).box recvBox).tokensLock = false := by
      simpa [Memory.setTokensLock, Memory.setBox, hbox] using hrecv
    simp only [ipcDeliver, uvisorSpinTrylock, hsend, hlock, if_true, Bool.true_eq_false, if_false,
      ne_eq, hbox, not_false_eq_true, and_false, Prod.mk.injEq, true_and]
    simp only [Memory.setTokensLock, Memory.setBox, transfer, Memory.completeToken]
    congr 1
    funext b
    by_cases hs : b = sendBox
    · subst hs
      simp [delivered, uvisorSpinUnlock, hsend, Ne.symm hbox]
    · by_cases hr : b = recvBox
      · subst hr
        simp [delivered, uvisorSpinUnlock, hrecv, hbox]
      · simp [delivered, hs, hr]

end Deliver

/-! ## How an iteration ends -/

section Endings

variable (sys : Platform) (mem : Memory) (d : ℕ → BoxLists) (sendBox slot : ℕ) (rest : List ℕ)

/-- No receive request can be had for a send request now: it is not ready,
the receiver is not in order, its queue is locked, or no request matches. -/
def Unmatched : Prop :=
  let sendIo := (mem.box sendBox).sendIo slot
  let recvBox := (mem.desc sendIo.desc).boxId.toNat
  let recvQueue := (mem.box recvBox).recvQueue
  sendIo.state ≠ .readyToSend ∨ receiverIsOk sys recvBox recvQueue = false ∨
    recvQueue.pool.spinlock = true ∨ ∀ recvSlot ∈ (d recvBox).recv,
      ((mem.box recvBox).recvIo recvSlot).state = .readyToRecv →
        ¬Fits sendBox (mem.desc sendIo.desc) (mem.desc ((mem.box recvBox).recvIo recvSlot).desc)

/-- A receive request of a box is the first ready one that a send request
fits. -/
structure Matched (recvBox recvSlot : ℕ) : Prop where
  /-- The send request names the box. -/
  box : (mem.desc ((mem.box sendBox).sendIo slot).desc).boxId = recvBox
  /-- The box is known. -/
  known : recvBox < sys.boxCount
  /-- The receive request is ready. -/
  ready : ((mem.box recvBox).recvIo recvSlot).state = .readyToRecv
  /-- The receive request fits. -/
  fits : Fits sendBox (mem.desc ((mem.box sendBox).sendIo slot).desc)
    (mem.desc ((mem.box recvBox).recvIo recvSlot).desc)
  /-- No earlier ready one does. -/
  first : ∃ before after, (d recvBox).recv = before ++ recvSlot :: after ∧ ∀ other ∈ before,
    ((mem.box recvBox).recvIo other).state = .readyToRecv →
      ¬Fits sendBox (mem.desc ((mem.box sendBox).sendIo slot).desc)
        (mem.desc ((mem.box recvBox).recvIo other).desc)

/-- A message has been copied and its requests are complete. -/
structure Transferred (recvBox recvSlot : ℕ) (mem' : Memory) (d' : ℕ → BoxLists) : Prop where
  /-- The token locks are free. -/
  locks : (mem.box sendBox).tokensLock = false ∧ (mem.box recvBox).tokensLock = false
  /-- The message is copied, and no other byte is written. -/
  byte : mem'.byte = memcpy mem.byte ((mem.box recvBox).recvIo recvSlot).msg
    ((mem.box sendBox).sendIo slot).msg (mem.desc ((mem.box sendBox).sendIo slot).desc).len
  /-- The receive descriptor gets the sender and the length, and no other
  descriptor is written. -/
  desc : mem'.desc = Function.update mem.desc ((mem.box recvBox).recvIo recvSlot).desc
    {mem.desc ((mem.box recvBox).recvIo recvSlot).desc with
      boxId := sendBox, len := (mem.desc ((mem.box sendBox).sendIo slot).desc).len}
  /-- The tokens of the two requests are complete, and no other ones become
  so. -/
  completedTokens : ∀ b, (mem'.box b).completedTokens = (mem.box b).completedTokens |||
    (if b = sendBox then (mem.desc ((mem.box sendBox).sendIo slot).desc).token else 0) |||
    (if b = recvBox then (mem.desc ((mem.box recvBox).recvIo recvSlot).desc).token else 0)
  /-- Nothing else in the boxes is written. -/
  same : SameBoxes mem mem'
  /-- Both slots are free, and the other requests keep their order. -/
  lists : d' = withRecv (withSend d sendBox (slot :: (d sendBox).sendFree) rest) recvBox
    (recvSlot :: (d recvBox).recvFree) ((d recvBox).recv.erase recvSlot)

/-- How an iteration with a send request ends, given what is known about a
delivery. -/
inductive Outcome (Done : ℕ → ℕ → Prop) (mem' : Memory) (d' : ℕ → BoxLists) : Prop where
  /-- A request that is not the sender's own or goes to no known box is
  dropped. -/
  | dropped
    (why : ipcIoIsOk sys sendBox (sendIoAddress sys sendBox slot)
        ((mem.box sendBox).sendIo slot) mem.desc = false ∨
      (mem.desc ((mem.box sendBox).sendIo slot).desc).boxId < 0 ∨
      (sys.boxCount : ℤ) ≤ (mem.desc ((mem.box sendBox).sendIo slot).desc).boxId)
    (only : OnlyQueues mem mem')
    (lists : d' = withSend d sendBox (d sendBox).sendFree rest)
  /-- A request without a match goes back. -/
  | kept (why : Unmatched sys mem d sendBox slot) (only : OnlyQueues mem mem')
    (lists : d' = withSend d sendBox (d sendBox).sendFree (rest ++ [slot]))
    (once : (d' sendBox).send.count slot = 1)
  /-- A request goes back, but the matching request is not the receiver's own
  and leaves its queue. -/
  | lost (recvBox recvSlot : ℕ) (pair : Matched sys mem d sendBox slot recvBox recvSlot)
    (why : ipcIoIsOk sys recvBox (recvIoAddress sys recvBox recvSlot)
      ((mem.box recvBox).recvIo recvSlot) mem.desc = false)
    (only : OnlyQueues mem mem')
    (lists : d' = withRecv (withSend d sendBox (d sendBox).sendFree (rest ++ [slot])) recvBox
      (d recvBox).recvFree ((d recvBox).recv.erase recvSlot))
    (once : (d' sendBox).send.count slot = 1)
  /-- Both requests go back because a token lock is held. -/
  | blocked (recvBox recvSlot : ℕ) (pair : Matched sys mem d sendBox slot recvBox recvSlot)
    (why : (mem.box sendBox).tokensLock = true ∨ (mem.box recvBox).tokensLock = true)
    (only : OnlyQueues mem mem')
    (lists : d' = withRecv (withSend d sendBox (d sendBox).sendFree (rest ++ [slot])) recvBox
      (d recvBox).recvFree ((d recvBox).recv.erase recvSlot ++ [recvSlot]))
    (once : (d' sendBox).send.count slot = 1)
  /-- The message is delivered. -/
  | delivered (recvBox recvSlot : ℕ) (pair : Matched sys mem d sendBox slot recvBox recvSlot)
    (done : Done recvBox recvSlot)

end Endings

section Proofs

variable {sys : Platform} {mem mem₁ mem₂ : Memory} {d d₂ : ℕ → BoxLists}
  {sendBox slot recvBox recvSlot : ℕ} {rest : List ℕ}

theorem Matched.mem_recv (h : Matched sys mem d sendBox slot recvBox recvSlot) :
    recvSlot ∈ (d recvBox).recv := by
  obtain ⟨before, after, hlist, -⟩ := h.first
  simp [hlist]

/-- A request at the end of the others is queued once. -/
theorem count_putBack (hnew : slot ∉ rest) : (rest ++ [slot]).count slot = 1 := by
  rw [List.count_append, List.count_eq_zero_of_not_mem hnew, List.count_singleton_self]

/-- The part of an iteration that has a pair in hand. -/
theorem fulfil_outcome (hb : sendBox < sys.boxCount)
    (hnew : slot ∉ rest)
    (hpair : Matched sys mem d sendBox slot recvBox recvSlot)
    (hd₂ : d₂ = withRecv (withSend d sendBox (d sendBox).sendFree rest) recvBox
      (d recvBox).recvFree ((d recvBox).recv.erase recvSlot))
    (h₂ : Queued sys mem₂ d₂) (hsend : HoldsSend mem₂ d₂ sendBox slot)
    (hrecv : HoldsRecv mem₂ d₂ recvBox recvSlot) (honly : OnlyQueues mem mem₂) (firstSlot : ℤ) :
    ∃ mem' firstSlot' d',
      fulfil sys sendBox slot recvBox recvSlot firstSlot mem₂ = ⟨mem', firstSlot'⟩ ∧
        Queued sys mem' d' ∧ Outcome sys mem d sendBox slot rest
          (fun b s => Transferred mem d sendBox slot rest b s mem' d') mem' d' ∧
        (firstSlot' = firstSlot ∨ (d' sendBox).send = rest) := by
  have hback := h₂.putSendBack hb hsend
  unfold fulfil
  rw [honly.sendIo, honly.recvIo, honly.desc]
  dsimp only
  by_cases hok : ipcIoIsOk sys recvBox (recvIoAddress sys recvBox recvSlot)
      ((mem.box recvBox).recvIo recvSlot) mem.desc = false
  · rw [if_pos hok]
    refine ⟨_, _, _, rfl, hback, ?_, Or.inl rfl⟩
    refine Outcome.lost recvBox recvSlot hpair hok
      (honly.trans (onlyQueues_putSendBack mem₂ sendBox slot)) ?_ (by
        simpa [hd₂] using count_putBack hnew)
    simp only [hd₂, withSend_withRecv, withSend_withSend, withRecv_send, withRecv_sendFree,
      withSend_send, withSend_sendFree, if_true]
  rw [if_neg hok]
  by_cases hlocks : (mem.box sendBox).tokensLock = true ∨ (mem.box recvBox).tokensLock = true
  · have hrefused : ipcDeliver sendBox recvBox ((mem.box sendBox).sendIo slot)
        ((mem.box recvBox).recvIo recvSlot) mem₂ = (-1, mem₂) :=
      ipcDeliver_refused _ _ (by rwa [honly.tokensLock, honly.tokensLock])
    rw [hrefused, if_pos (by simp)]
    have hheld := hrecv.setSendQueue sendBox
      (uvisorPoolQueueTryEnqueue (mem₂.box sendBox).sendQueue () slot).2
      (d₂ sendBox).sendFree ((d₂ sendBox).send ++ [slot])
    refine ⟨_, _, _, rfl, hback.putRecvBack hpair.known hheld, ?_, Or.inl rfl⟩
    refine Outcome.blocked recvBox recvSlot hpair hlocks (honly.trans
      ((onlyQueues_putSendBack mem₂ sendBox slot).trans (onlyQueues_putRecvBack _ _ _))) ?_
      (by simpa [hd₂] using count_putBack hnew)
    simp only [hd₂, withSend_withRecv, withSend_withSend, withRecv_withRecv, withRecv_send,
      withRecv_sendFree, withRecv_recv, withRecv_recvFree, withSend_send, withSend_sendFree, if_true]
  · have hfree : (mem.box sendBox).tokensLock = false ∧ (mem.box recvBox).tokensLock = false := by
      simpa using hlocks
    rw [ipcDeliver_delivers _ _ (by rw [honly.tokensLock, hfree.1])
      (by rw [honly.tokensLock, hfree.2]), if_neg (by simp)]
    dsimp only
    set mem₃ : Memory := ⟨delivered mem₂ sendBox recvBox ((mem.box sendBox).sendIo slot)
      ((mem.box recvBox).recvIo recvSlot), _, _⟩
    have h₃ : Queued sys mem₃ d₂ := h₂
    have hfreed := onlyQueues_freePair mem₃ sendBox slot recvBox recvSlot
    have hlists := h₃.freePair hb hpair.known ⟨hsend.held, hsend.lock⟩ ⟨hrecv.held, hrecv.lock⟩
    simp only [hd₂, withSend_withRecv, withSend_withSend, withRecv_withRecv, withRecv_send,
      withRecv_sendFree, withRecv_recv, withRecv_recvFree, withSend_send, withSend_sendFree,
      if_true] at hlists
    refine ⟨_, _, _, rfl, hlists, Outcome.delivered recvBox recvSlot hpair ?_, Or.inr (by simp)⟩
    refine ⟨hfree, ?_, ?_, fun b => ?_, ⟨fun b => ?_, fun b => ?_, fun b => ?_, fun b => ?_,
      fun b => ?_, fun b => ?_⟩, rfl⟩
    · rw [hfreed.byte]
      simp only [mem₃, honly.byte, honly.desc]
    · rw [hfreed.desc]
      simp only [mem₃, honly.desc]
    · rw [hfreed.completedTokens]
      simp only [mem₃, delivered, honly.completedTokens, honly.desc]
    · exact (hfreed.sendIo b).trans (honly.sendIo b)
    · exact (hfreed.recvIo b).trans (honly.recvIo b)
    · exact (hfreed.tokensLock b).trans (honly.tokensLock b)
    · exact (hfreed.allocatedTokens b).trans (honly.allocatedTokens b)
    · exact (hfreed.sendHeader b).trans (honly.sendHeader b)
    · exact (hfreed.recvHeader b).trans (honly.recvHeader b)

/-- Finding on a held lock finds nothing and changes nothing. -/
theorem tryFindFirst_held {m : PoolQueues Unit} (hl : m.pool.spinlock = true) (query : ℕ → Bool) :
    uvisorPoolQueueTryFindFirst m () query = some (slotInvalid, m) := by
  rcases m with ⟨pool, queue⟩
  rcases pool with ⟨magic, array, stride, num, numAllocated, firstFree, spinlock, entries⟩
  simp only at hl
  subst hl
  rfl

/-- A request without a match goes back. -/
theorem kept_outcome (hb : sendBox < sys.boxCount) (hnew : slot ∉ rest) (why : Unmatched sys mem d sendBox slot)
    (h₁ : Queued sys mem₁ (withSend d sendBox (d sendBox).sendFree rest))
    (hsend : HoldsSend mem₁ (withSend d sendBox (d sendBox).sendFree rest) sendBox slot)
    (honly : OnlyQueues mem mem₁) (firstSlot : ℤ) :
    ∃ mem' firstSlot' d',
      (.next ⟨putSendBack mem₁ sendBox slot, firstSlot⟩ : Flow DrainState) =
          .next ⟨mem', firstSlot'⟩ ∧
        Queued sys mem' d' ∧ Outcome sys mem d sendBox slot rest
          (fun b s => Transferred mem d sendBox slot rest b s mem' d') mem' d' ∧
        (firstSlot' = firstSlot ∨ (d' sendBox).send = rest) := by
  have hback := h₁.putSendBack hb hsend
  simp only [withSend_withSend, withSend_send, withSend_sendFree, if_true] at hback
  exact ⟨_, _, _, rfl, hback,
    Outcome.kept why (honly.trans (onlyQueues_putSendBack mem₁ sendBox slot)) rfl
      (by simpa using count_putBack hnew), Or.inl rfl⟩

/-- The part of an iteration that looks for a receive request. -/
theorem matchReceiver_outcome (hd : Queued sys mem d) (hb : sendBox < sys.boxCount)
    (hnew : slot ∉ rest)
    (hbox : (mem.desc ((mem.box sendBox).sendIo slot).desc).boxId = recvBox)
    (hknown : recvBox < sys.boxCount)
    (h₁ : Queued sys mem₁ (withSend d sendBox (d sendBox).sendFree rest))
    (hsend : HoldsSend mem₁ (withSend d sendBox (d sendBox).sendFree rest) sendBox slot)
    (honly : OnlyQueues mem mem₁)
    (hqueue : (mem₁.box recvBox).recvQueue = (mem.box recvBox).recvQueue) (firstSlot : ℤ) :
    ∃ mem' firstSlot' d',
      matchReceiver sys sendBox slot recvBox firstSlot mem₁ = .next ⟨mem', firstSlot'⟩ ∧
        Queued sys mem' d' ∧ Outcome sys mem d sendBox slot rest
          (fun b s => Transferred mem d sendBox slot rest b s mem' d') mem' d' ∧
        (firstSlot' = firstSlot ∨ (d' sendBox).send = rest) := by
  have hrecv := (hd recvBox hknown).2
  have hname : (mem.desc ((mem.box sendBox).sendIo slot).desc).boxId.toNat = recvBox := by
    rw [hbox, Int.toNat_natCast]
  have hkept : (receiverIsOk sys recvBox (mem.box recvBox).recvQueue = false ∨
      (mem.box recvBox).recvQueue.pool.spinlock = true ∨ ∀ recvSlot ∈ (d recvBox).recv,
        ((mem.box recvBox).recvIo recvSlot).state = .readyToRecv →
          ¬Fits sendBox (mem.desc ((mem.box sendBox).sendIo slot).desc)
            (mem.desc ((mem.box recvBox).recvIo recvSlot).desc)) →
      Unmatched sys mem d sendBox slot := by
    intro why
    unfold Unmatched
    dsimp only
    rw [hname]
    exact Or.inr why
  have hnum := hrecv.num_lt
  have hge : (mem.box recvBox).recvQueue.pool.num ≤ slotInvalid := by
    simp only [poolMaxValid, slotInvalid] at hnum ⊢
    omega
  have hself : mem₁.setRecvQueue recvBox (mem.box recvBox).recvQueue = mem₁ := by
    rw [← hqueue]
    simp [Memory.setRecvQueue, Memory.setBox]
  unfold matchReceiver
  simp only [hqueue, honly.sendIo, honly.recvIo, honly.desc]
  by_cases hok : receiverIsOk sys recvBox (mem.box recvBox).recvQueue = false
  · rw [if_pos hok]
    exact kept_outcome hb hnew (hkept (Or.inl hok)) h₁ hsend honly firstSlot
  rw [if_neg hok]
  cases hlock : (mem.box recvBox).recvQueue.pool.spinlock with
  | true =>
    rw [tryFindFirst_held hlock]
    simp only [if_pos hge, hself]
    exact kept_outcome hb hnew (hkept (Or.inr (Or.inl hlock))) h₁ hsend honly firstSlot
  | false =>
    rw [tryFindFirst_spec hrecv hlock]
    simp only [hself, hqueue]
    cases hfind : (d recvBox).recv.find? fun s => recvMatch sendBox
        (mem.desc ((mem.box sendBox).sendIo slot).desc)
        (mem.desc ((mem.box recvBox).recvIo s).desc) ((mem.box recvBox).recvIo s).state with
    | none =>
      have hnone : ∀ s ∈ (d recvBox).recv, ((mem.box recvBox).recvIo s).state = .readyToRecv →
          ¬Fits sendBox (mem.desc ((mem.box sendBox).sendIo slot).desc)
            (mem.desc ((mem.box recvBox).recvIo s).desc) := by
        intro s hmem hready hfits
        exact List.find?_eq_none.mp hfind s hmem ((recvMatch_iff _ _ _ _).mpr ⟨hready, hfits⟩)
      simp only [Option.getD_none, if_pos hge]
      exact kept_outcome hb hnew (hkept (Or.inr (Or.inr hnone))) h₁ hsend honly firstSlot
    | some recvSlot =>
      obtain ⟨hmatch, before, after, hlist, hearlier⟩ := List.find?_eq_some_iff_append.mp hfind
      have hmem : recvSlot ∈ (d recvBox).recv := by simp [hlist]
      have hpair : Matched sys mem d sendBox slot recvBox recvSlot := by
        obtain ⟨hready, hfits⟩ := (recvMatch_iff _ _ _ _).mp hmatch
        refine ⟨hbox, hknown, hready, hfits, before, after, hlist, ?_⟩
        intro other hother hr hfits'
        have hno := hearlier other hother
        rw [(recvMatch_iff _ _ _ _).mpr ⟨hr, hfits'⟩] at hno
        cases hno
      have hlt : ¬(mem.box recvBox).recvQueue.pool.num ≤ recvSlot :=
        Nat.not_le.mpr (hrecv.lists_lt () recvSlot hmem)
      obtain ⟨hslot, hr, hheld⟩ := tryDequeue_mem hrecv hlock (q := ()) hmem
      rw [update_unit] at hr hheld
      simp only [Option.getD_some, if_neg hlt, hslot]
      have hcarried : HoldsRecv (mem₁.setRecvQueue recvBox
          (uvisorPoolQueueTryDequeue (mem.box recvBox).recvQueue () recvSlot).2)
          (withRecv (withSend d sendBox (d sendBox).sendFree rest) recvBox (d recvBox).recvFree
            ((d recvBox).recv.erase recvSlot)) recvBox recvSlot := by
        constructor
        · simpa using hheld
        · simp [hlock]
      obtain ⟨mem', firstSlot', d', hstep, hq', hout, hfirst⟩ := fulfil_outcome hb hnew hpair
        rfl (h₁.setRecvQueue recvBox hr) (hsend.setRecvQueue recvBox _ _ _) hcarried
        (honly.trans (onlyQueues_setRecvQueue (by simp [hqueue]))) firstSlot
      exact ⟨mem', firstSlot', d', by rw [hstep], hq', hout, hfirst⟩

/-- The part of an iteration after a send request has been dequeued. -/
theorem offer_outcome (hd : Queued sys mem d) (hb : sendBox < sys.boxCount)
    (hnew : slot ∉ rest)
    (h₁ : Queued sys mem₁ (withSend d sendBox (d sendBox).sendFree rest))
    (hsend : HoldsSend mem₁ (withSend d sendBox (d sendBox).sendFree rest) sendBox slot)
    (honly : OnlyQueues mem mem₁)
    (hqueue : ∀ b, (mem₁.box b).recvQueue = (mem.box b).recvQueue) (firstSlot : ℤ) :
    ∃ mem' firstSlot' d',
      offer sys sendBox slot firstSlot mem₁ = .next ⟨mem', firstSlot'⟩ ∧
        Queued sys mem' d' ∧ Outcome sys mem d sendBox slot rest
          (fun b s => Transferred mem d sendBox slot rest b s mem' d') mem' d' ∧
        (firstSlot' = firstSlot ∨ (d' sendBox).send = rest) := by
  unfold offer
  simp only [honly.sendIo, honly.desc]
  by_cases hio : ipcIoIsOk sys sendBox (sendIoAddress sys sendBox slot)
      ((mem.box sendBox).sendIo slot) mem.desc = false
  · rw [if_pos hio]
    exact ⟨_, _, _, rfl, h₁, Outcome.dropped (Or.inl hio) honly rfl, Or.inl rfl⟩
  rw [if_neg hio]
  by_cases hstate : ((mem.box sendBox).sendIo slot).state ≠ .readyToSend
  · rw [if_pos hstate]
    exact kept_outcome hb hnew (Or.inl hstate) h₁ hsend honly firstSlot
  rw [if_neg hstate]
  by_cases hunknown : (mem.desc ((mem.box sendBox).sendIo slot).desc).boxId < 0 ∨
      (sys.boxCount : ℤ) ≤ (mem.desc ((mem.box sendBox).sendIo slot).desc).boxId
  · rw [if_pos hunknown]
    exact ⟨_, _, _, rfl, h₁, Outcome.dropped (Or.inr hunknown) honly rfl, Or.inl rfl⟩
  rw [if_neg hunknown]
  have hbox : (mem.desc ((mem.box sendBox).sendIo slot).desc).boxId =
      ((mem.desc ((mem.box sendBox).sendIo slot).desc).boxId.toNat : ℤ) := by omega
  exact matchReceiver_outcome hd hb hnew hbox (by omega) h₁ hsend honly (hqueue _) firstSlot

end Proofs

/-! ## Iterations -/

/-- What an iteration does, with the lists after it, given what is known about
a delivery. -/
inductive Iteration (sys : Platform) (mem : Memory) (d : ℕ → BoxLists) (sendBox : ℕ)
    (firstSlot : ℤ) (Done : ℕ → List ℕ → ℕ → ℕ → Prop) (mem' : Memory) (d' : ℕ → BoxLists) :
    Flow DrainState → Prop where
  /-- The queue is empty or locked. -/
  | idle (why : (d sendBox).send = [] ∨ (mem.box sendBox).sendQueue.pool.spinlock = true)
    (same : mem' = mem) (lists : d' = d) :
    Iteration sys mem d sendBox firstSlot Done mem' d' (.stop ⟨mem', firstSlot⟩)
  /-- The remembered request has come round and goes back. -/
  | cameRound (slot : ℕ) (rest : List ℕ) (head : (d sendBox).send = slot :: rest)
    (seen : firstSlot = slot) (only : OnlyQueues mem mem')
    (lists : d' = withSend d sendBox (d sendBox).sendFree (rest ++ [slot])) :
    Iteration sys mem d sendBox firstSlot Done mem' d' (.stop ⟨mem', firstSlot⟩)
  /-- The first request of the queue meets its fate, and is remembered if
  none was. It is forgotten only when it has left the queue. -/
  | handled (slot : ℕ) (rest : List ℕ) (firstSlot' : ℤ) (head : (d sendBox).send = slot :: rest)
    (unseen : firstSlot ≠ slot) (outcome : Outcome sys mem d sendBox slot rest (Done slot rest) mem' d')
    (first : firstSlot' = (if firstSlot = -1 then ↑slot else firstSlot) ∨
      (d' sendBox).send = rest) :
    Iteration sys mem d sendBox firstSlot Done mem' d' (.next ⟨mem', firstSlot'⟩)

section Iterations

variable {sys : Platform} {mem : Memory} {d : ℕ → BoxLists} {sendBox : ℕ}

/-- Every iteration keeps the queues well formed. Only a transfer, which needs
both token locks, changes anything but queues. -/
theorem ipcDrainBody_iteration (hb : sendBox < sys.boxCount) (hd : Queued sys mem d)
    (firstSlot : ℤ) :
    ∃ mem' d', Queued sys mem' d' ∧ Iteration sys mem d sendBox firstSlot
      (fun slot rest b s => Transferred mem d sendBox slot rest b s mem' d') mem' d'
      (ipcDrainBody sys sendBox ⟨mem, firstSlot⟩) := by
  have hpool := (hd sendBox hb).1
  cases hlock : (mem.box sendBox).sendQueue.pool.spinlock with
  | true =>
    rw [ipcDrainBody_invalid hpool.num_lt (withTrylock_of_held hlock)]
    exact ⟨mem, d, hd, .idle (Or.inr hlock) rfl rfl⟩
  | false =>
    cases hs : (d sendBox).send with
    | nil =>
      rw [ipcDrainBody_invalid hpool.num_lt (tryDequeueFirst_nil hpool hlock hs)]
      exact ⟨mem, d, hd, .idle (Or.inl hs) rfl rfl⟩
    | cons slot rest =>
      obtain ⟨hslot, hr, hheld⟩ := tryDequeueFirst_cons hpool hlock (q := ()) hs
      rw [update_unit] at hr hheld
      have hlt : ¬(mem.box sendBox).sendQueue.pool.num ≤ slot :=
        Nat.not_le.mpr (hpool.lists_lt () slot (by simp [hs]))
      have hnew : slot ∉ rest := (List.nodup_cons.mp (hs ▸ hpool.nodup ())).1
      have h₁ := hd.setSendQueue sendBox hr
      set mem₁ := mem.setSendQueue sendBox
        (uvisorPoolQueueTryDequeueFirst (mem.box sendBox).sendQueue ()).2
      have honly : OnlyQueues mem mem₁ := onlyQueues_setSendQueue (by simp)
      have hsend : HoldsSend mem₁ (withSend d sendBox (d sendBox).sendFree rest) sendBox slot := by
        constructor
        · simpa [mem₁] using hheld
        · simp [mem₁, hlock]
      have hoffer := fun first => offer_outcome hd hb hnew h₁ hsend honly
        (fun b => by simp [mem₁]) first
      unfold ipcDrainBody
      dsimp only
      rw [hslot, if_neg hlt]
      by_cases hfirst : firstSlot = -1
      · obtain ⟨mem', firstSlot', d', hstep, hd', hout, hrem⟩ := hoffer slot
        rw [if_pos hfirst, hstep]
        refine ⟨mem', d', hd',
          .handled slot rest firstSlot' hs (by omega) hout ?_⟩
        rwa [if_pos hfirst]
      rw [if_neg hfirst]
      by_cases hseen : (slot : ℤ) = firstSlot
      · have hback := h₁.putSendBack hb hsend
        simp only [withSend_withSend, withSend_send, withSend_sendFree, if_true] at hback
        have honly' := honly.trans (onlyQueues_putSendBack mem₁ sendBox slot)
        rw [if_pos hseen]
        exact ⟨_, _, hback, .cameRound slot rest hs hseen.symm honly' rfl⟩
      · obtain ⟨mem', firstSlot', d', hstep, hd', hout, hrem⟩ := hoffer firstSlot
        rw [if_neg hseen, hstep]
        refine ⟨mem', d', hd',
          .handled slot rest firstSlot' hs (fun he => hseen he.symm) hout ?_⟩
        rwa [if_neg hfirst]

end Iterations

/-! ## A pass over any memory -/

section Frame

variable {sys : Platform} {mem : Memory} {sendBox slot : ℕ} {firstSlot : ℤ}

/-- A delivery, done or refused, leaves all but the completed tokens alone. -/
theorem sameBoxes_ipcDeliver (recvBox : ℕ) (sendIo recvIo : Io) :
    SameBoxes mem (ipcDeliver sendBox recvBox sendIo recvIo mem).2 := by
  by_cases hlocks : (mem.box sendBox).tokensLock = true ∨ (mem.box recvBox).tokensLock = true
  · rw [ipcDeliver_refused sendIo recvIo hlocks]
    exact SameBoxes.refl mem
  · rw [not_or, Bool.not_eq_true, Bool.not_eq_true] at hlocks
    rw [ipcDeliver_delivers sendIo recvIo hlocks.1 hlocks.2]
    exact ⟨fun _ => rfl, fun _ => rfl, fun _ => rfl, fun _ => rfl, fun _ => rfl, fun _ => rfl⟩

theorem sameBoxes_fulfil (recvBox recvSlot : ℕ) :
    SameBoxes mem (fulfil sys sendBox slot recvBox recvSlot firstSlot mem).mem := by
  unfold fulfil
  dsimp only
  split
  · exact (onlyQueues_putSendBack mem sendBox slot).toSameBoxes
  · have hdelivered := @sameBoxes_ipcDeliver mem sendBox recvBox ((mem.box sendBox).sendIo slot)
      ((mem.box recvBox).recvIo recvSlot)
    split
    · exact hdelivered.trans ((onlyQueues_putSendBack _ _ _).trans
        (onlyQueues_putRecvBack _ _ _)).toSameBoxes
    · exact hdelivered.trans (onlyQueues_freePair _ _ _ _ _).toSameBoxes

theorem sameBoxes_matchReceiver {recvBox : ℕ} {out : DrainState}
    (h : matchReceiver sys sendBox slot recvBox firstSlot mem = .next out ∨
      matchReceiver sys sendBox slot recvBox firstSlot mem = .stop out) :
    SameBoxes mem out.mem := by
  unfold matchReceiver at h
  dsimp only at h
  split at h
  · rcases h with h | h <;> cases h
    exact (onlyQueues_putSendBack mem sendBox slot).toSameBoxes
  · split at h
    · rcases h with h | h <;> cases h
    · rename_i found hfound
      have hsought := onlyQueues_setRecvQueue (header_uvisorPoolQueueTryFindFirst hfound)
      split at h
      · rcases h with h | h <;> cases h
        exact (hsought.trans (onlyQueues_putSendBack _ _ _)).toSameBoxes
      · have hdequeued := hsought.trans (onlyQueues_setRecvQueue
          (header_uvisorPoolQueueTryDequeue ((mem.setRecvQueue recvBox found.2).box
            recvBox).recvQueue () found.1))
        split at h
        · rcases h with h | h <;> cases h
          exact (hdequeued.trans (onlyQueues_putSendBack _ _ _)).toSameBoxes
        · rcases h with h | h <;> cases h
          exact hdequeued.toSameBoxes.trans (sameBoxes_fulfil _ _)

theorem sameBoxes_offer {out : DrainState}
    (h : offer sys sendBox slot firstSlot mem = .next out ∨
      offer sys sendBox slot firstSlot mem = .stop out) : SameBoxes mem out.mem := by
  unfold offer at h
  dsimp only at h
  split at h
  · rcases h with h | h <;> cases h
    exact SameBoxes.refl mem
  · split at h
    · rcases h with h | h <;> cases h
      exact (onlyQueues_putSendBack mem sendBox slot).toSameBoxes
    · split at h
      · rcases h with h | h <;> cases h
        exact SameBoxes.refl mem
      · exact sameBoxes_matchReceiver h

/-- No pass changes requests, allocated tokens or locks of tokens. -/
theorem sameBoxes_ipcDrainBody {st out : DrainState}
    (h : ipcDrainBody sys sendBox st = .next out ∨ ipcDrainBody sys sendBox st = .stop out) :
    SameBoxes st.mem out.mem := by
  have hdequeued : SameBoxes st.mem (st.mem.setSendQueue sendBox
      (uvisorPoolQueueTryDequeueFirst (st.mem.box sendBox).sendQueue ()).2) :=
    (onlyQueues_setSendQueue (by simp)).toSameBoxes
  unfold ipcDrainBody at h
  dsimp only at h
  split at h
  · rcases h with h | h <;> cases h
    exact hdequeued
  · split at h
    · exact hdequeued.trans (sameBoxes_offer h)
    · split at h
      · rcases h with h | h <;> cases h
        exact hdequeued.trans (onlyQueues_putSendBack _ _ _).toSameBoxes
      · exact hdequeued.trans (sameBoxes_offer h)

end Frame

end Uvisor.IpcPasses
