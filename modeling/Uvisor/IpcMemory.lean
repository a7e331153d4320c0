import Uvisor.Ipc
import Uvisor.RpcAccesses

/-!
# Requests in the memory of boxes

The structures that the IPC drain works on are bytes of the boxes, and so are
the pointers between them. Here each function that the drain calls records
which objects it touches: requests, descriptors, message buffers and entries of
management arrays, each with the box that has supplied the pointer to it.
-/

namespace Uvisor.IpcMemory

open RpcMemory PoolAccesses
open RpcAccesses (store32)

/-! ## Layout -/

/-- uvisor_ipc. -/
def uvisorIpc (mem : Memory) (index : Word) : Word := load32 mem (index+16)

/-- A box and its IPC state. -/
structure Party where
  /-- The box. -/
  box : ℤ
  /-- Address of its IPC state. -/
  ipc : Word

/-- The send queue. -/
def Party.sendQueue (p : Party) : Word := p.ipc

/-- The send requests. -/
def Party.sendArray (p : Party) : Word := p.ipc+BitVec.ofNat 32 Ipc.ioOffset

/-- A send request. -/
def Party.sendIo (p : Party) (slot : BitVec 8) : Word :=
  p.sendArray+BitVec.ofNat 32 (Ipc.ioSize*slot.toNat)

/-- The receive queue. -/
def Party.recvQueue (p : Party) : Word := p.ipc+BitVec.ofNat 32 Ipc.recvQueueOffset

/-- The receive requests. -/
def Party.recvArray (p : Party) : Word := p.recvQueue+BitVec.ofNat 32 Ipc.ioOffset

/-- A receive request. -/
def Party.recvIo (p : Party) (slot : BitVec 8) : Word :=
  p.recvArray+BitVec.ofNat 32 (Ipc.ioSize*slot.toNat)

/-- The lock on the tokens. -/
def Party.tokensLock (p : Party) : Word := p.ipc+504

/-- The tokens of completed requests. -/
def Party.completedTokens (p : Party) : Word := p.ipc+512

/-- Pointer to the descriptor of a request. -/
def ioDesc (mem : Memory) (io : Word) : Word := load32 mem io

/-- Pointer to the message buffer of a request. -/
def ioMsg (mem : Memory) (io : Word) : Word := load32 mem (io+4)

/-- The state of a request, which takes one byte. -/
def ioState (mem : Memory) (io : Word) : BitVec 8 := load8 mem (io+8)

/-- UVISOR_IPC_IO_STATE_READY_TO_SEND. -/
def ioStateReadyToSend : BitVec 8 := 2

/-- UVISOR_IPC_IO_STATE_READY_TO_RECV. -/
def ioStateReadyToRecv : BitVec 8 := 3

/-- The box of a descriptor. -/
def descBoxId (mem : Memory) (desc : Word) : ℤ := (load32 mem desc).toInt

/-- The port of a descriptor. -/
def descPort (mem : Memory) (desc : Word) : Word := load32 mem (desc+4)

/-- The length of a descriptor. -/
def descLen (mem : Memory) (desc : Word) : Word := load32 mem (desc+8)

/-- The token of a descriptor. -/
def descToken (mem : Memory) (desc : Word) : Word := load32 mem (desc+12)

/-! ## Objects -/

/-- A range of bytes, and the box that should have them. -/
structure Range where
  /-- The box. -/
  box : ℤ
  /-- First address. -/
  start : Word
  /-- Number of bytes. -/
  len : ℕ
  deriving DecidableEq

/-- A range has all bytes of an object of the same box. -/
def Range.Has (r object : Range) : Prop :=
  r.box = object.box ∧
    (object.len = 0 ∨ (object.start-r.start).toNat+object.len ≤ r.len)

/-- One of the ranges has all bytes of an object. -/
def Covers (ranges : List Range) (object : Range) : Prop := ∃ r ∈ ranges, r.Has object

instance (r object : Range) : Decidable (r.Has object) :=
  inferInstanceAs (Decidable (_ ∧ (_ ∨ _)))

instance (ranges : List Range) (object : Range) : Decidable (Covers ranges object) :=
  inferInstanceAs (Decidable (∃ r ∈ ranges, r.Has object))

theorem Range.has_self (range : Range) : range.Has range := by
  refine ⟨rfl, .inr ?_⟩
  rw [BitVec.sub_self]
  exact (Nat.zero_add _).le

theorem Covers.mono {known ranges : List Range} {object : Range} (h : Covers known object)
    (hsub : known ⊆ ranges) : Covers ranges object := by
  obtain ⟨range, hmem, hhas⟩ := h
  exact ⟨range, hsub hmem, hhas⟩

/-- A request. -/
def ioObject (box : ℤ) (io : Word) : Range := ⟨box, io, Ipc.ioSize⟩

/-- A descriptor. -/
def descObject (box : ℤ) (desc : Word) : Range := ⟨box, desc, Ipc.descSize⟩

/-- An entry of a management array. -/
def entryObject (box : ℤ) (pool : Word) (slot : BitVec 8) : Range :=
  ⟨box, managementEntry pool slot.toNat, entryBytes⟩

/-- A message buffer. -/
def msgObject (box : ℤ) (msg len : Word) : Range := ⟨box, msg, len.toNat⟩

/-- Memory, and the objects that have been touched. -/
structure Trace where
  /-- Memory. -/
  mem : Memory
  /-- Objects, in order. -/
  objects : List Range

/-- Record an object. -/
def Trace.touch (t : Trace) (object : Range) : Trace := {t with objects := t.objects ++ [object]}

/-- Write to memory. -/
def Trace.write (t : Trace) (f : Memory → Memory) : Trace := {t with mem := f t.mem}

/-- All objects meet a condition. -/
def Trace.All (ok : Range → Prop) (t : Trace) : Prop := ∀ object ∈ t.objects, ok object

/-! ## Pool operations -/

/-- Run a critical section and record the entries that it uses. -/
def Trace.critical {β : Type} (box : ℤ) (pool : Word) (f : Traced → β × Traced) (t : Trace) :
    β × Trace :=
  let out := f ⟨t.mem, []⟩
  (out.1, ⟨out.2.mem, t.objects ++ out.2.accesses.map fun a => entryObject box pool a.slot⟩)

/-- Give up when the lock is held, else run the critical section between
acquire and release. -/
def Trace.withTrylock {β : Type} (pool : Word) (failure : β) (body : Trace → β × Trace)
    (t : Trace) : β × Trace :=
  if poolLock t.mem pool = 0 then
    let out := body (t.write fun mem => acquired mem pool)
    (out.1, out.2.write fun mem => store8 mem (pool+15) 0)
  else (failure, t)

/-- uvisor_pool_queue_try_dequeue_first. -/
def tryDequeueFirst (box : ℤ) (queue : Word) (t : Trace) : BitVec 8 × Trace :=
  let pool := queuePool t.mem queue
  t.withTrylock pool slotInvalid fun t =>
    t.critical box (queuePool t.mem queue) (PoolAccesses.tryDequeueFirst queue)

/-- uvisor_pool_queue_try_enqueue. -/
def tryEnqueue (box : ℤ) (queue : Word) (slot : BitVec 8) (t : Trace) : ℤ × Trace :=
  let pool := queuePool t.mem queue
  if slot ≠ slotInvalid then
    t.withTrylock pool (-1) fun t =>
      t.critical box (queuePool t.mem queue) fun u => (0, enqueue queue slot u)
  else (0, t)

/-- uvisor_pool_queue_try_free. -/
def tryFree (box : ℤ) (queue : Word) (slot : BitVec 8) (t : Trace) : BitVec 8 × Trace :=
  let pool := queuePool t.mem queue
  if poolNum t.mem pool ≤ slot then (slotInvalid, t)
  else t.withTrylock pool slotInvalid fun t => t.critical box pool (freeSection pool slot)

/-- Critical section of uvisor_pool_queue_try_dequeue. The entry is found by
the pool pointer from before the lock has been taken. -/
def dequeueSection (box : ℤ) (queue pool : Word) (slot : BitVec 8) (t : Trace) :
    BitVec 8 × Trace :=
  let t := t.touch (entryObject box pool slot)
  let state := entryPrev t.mem pool slot
  if state = slotIsFree ∨ state = slotIsDequeued then (state, t)
  else if queueHead t.mem queue ≠ slotInvalid then
    t.critical box (queuePool t.mem queue) fun u => (slot, dequeue queue slot u)
  else (slot, t)

/-- uvisor_pool_queue_try_dequeue. -/
def tryDequeue (box : ℤ) (queue : Word) (slot : BitVec 8) (t : Trace) : BitVec 8 × Trace :=
  let pool := queuePool t.mem queue
  if poolNum t.mem pool ≤ slot then (slotInvalid, t)
  else t.withTrylock pool slotInvalid (dequeueSection box queue pool slot)

/-- The next slot of a queue that is walked over. -/
def follow (box : ℤ) (pool : Word) (slot : BitVec 8) (t : Trace) : BitVec 8 × Trace :=
  (entryNext t.mem pool slot, t.touch (entryObject box pool slot))

/-! ## Matching and delivering -/

/-- The descriptor of a receive request permits the sender. -/
def Permits (sendBox : ℤ) (mem : Memory) (recvDesc : Word) : Prop :=
  sendBox = descBoxId mem recvDesc ∨ descBoxId mem recvDesc = Ipc.boxIdInvalid

instance (sendBox : ℤ) (mem : Memory) (recvDesc : Word) : Decidable (Permits sendBox mem recvDesc) :=
  inferInstanceAs (Decidable (_ ∨ _))

/-- recv_match. -/
def recvMatch (sendBox recvBox : ℤ) (sendIo recvIo : Word) (t : Trace) : Bool × Trace :=
  let t := t.touch (ioObject sendBox sendIo)
  let t := t.touch (ioObject recvBox recvIo)
  let sendDesc := ioDesc t.mem sendIo
  let recvDesc := ioDesc t.mem recvIo
  if ioState t.mem recvIo ≠ ioStateReadyToRecv then (false, t)
  else
    let t := t.touch (descObject recvBox recvDesc)
    if ¬Permits sendBox t.mem recvDesc then (false, t)
    else
      let t := t.touch (descObject sendBox sendDesc)
      if descPort t.mem sendDesc ≠ descPort t.mem recvDesc then (false, t)
      else if descLen t.mem recvDesc < descLen t.mem sendDesc then (false, t)
      else (true, t)

/-- Copy bytes between two buffers. -/
def memcpy (dst src len : Word) (mem : Memory) : Memory := fun address =>
  if address-dst < len then mem (src+(address-dst)) else mem address

/-- Mark a token of a box as complete. -/
def completeToken (p : Party) (token : Word) (mem : Memory) : Memory :=
  store32 mem p.completedTokens (load32 mem p.completedTokens ||| token)

/-- Memory after both token locks have been taken, which may be the same. -/
def tokensAcquired (sender receiver : Party) (mem : Memory) : Memory :=
  let mem := store8 mem sender.tokensLock 1
  if receiver.tokensLock ≠ sender.tokensLock then store8 mem receiver.tokensLock 1 else mem

/-- Memory after both token locks have been released. -/
def tokensReleased (sender receiver : Party) (mem : Memory) : Memory :=
  let mem := if receiver.tokensLock ≠ sender.tokensLock then
      store8 mem receiver.tokensLock 0 else mem
  store8 mem sender.tokensLock 0

/-- The part of ipc_deliver between the locks. -/
def transfer (sender receiver : Party) (sendIo recvIo sendDesc recvDesc : Word) (t : Trace) :
    Trace :=
  let t := t.touch (descObject sender.box sendDesc)
  let len := descLen t.mem sendDesc
  let t := t.touch (msgObject receiver.box (ioMsg t.mem recvIo) len)
  let t := t.touch (msgObject sender.box (ioMsg t.mem sendIo) len)
  let t := t.write (memcpy (ioMsg t.mem recvIo) (ioMsg t.mem sendIo) len)
  let t := t.write (completeToken sender (descToken t.mem sendDesc))
  let t := t.touch (descObject receiver.box recvDesc)
  let t := t.write fun mem => store32 mem recvDesc (BitVec.ofInt 32 sender.box)
  let t := t.write fun mem => store32 mem (recvDesc+8) (descLen mem sendDesc)
  t.write (completeToken receiver (descToken t.mem recvDesc))

/-- ipc_deliver. The status is 0 on success. -/
def ipcDeliver (sender receiver : Party) (sendIo recvIo : Word) (t : Trace) : ℤ × Trace :=
  let t := t.touch (ioObject sender.box sendIo)
  let t := t.touch (ioObject receiver.box recvIo)
  let sendDesc := ioDesc t.mem sendIo
  let recvDesc := ioDesc t.mem recvIo
  if load8 t.mem sender.tokensLock ≠ 0 then (-1, t)
  else if receiver.tokensLock ≠ sender.tokensLock ∧
      load8 (store8 t.mem sender.tokensLock 1) receiver.tokensLock ≠ 0 then
    (-1, t.write fun mem =>
      store8 (store8 mem sender.tokensLock 1) sender.tokensLock 0)
  else
    let t := t.write (tokensAcquired sender receiver)
    let t := transfer sender receiver sendIo recvIo sendDesc recvDesc t
    (0, t.write (tokensReleased sender receiver))

/-! ## The objects that each function touches -/

section Conditions

variable (ok : Range → Prop) (box : ℤ) (queue : Word) (slot : BitVec 8) (mem : Memory)

/-- The entries that a removal of the first slot uses. -/
def DequeueFirstOk : Prop :=
  let pool := queuePool mem queue
  poolLock mem pool ≠ 0 ∨
    let mem := acquired mem pool
    queueHead mem queue = slotInvalid ∨
      DequeueSlots (fun slot => ok (entryObject box (queuePool mem queue) slot)) queue
        (queueHead mem queue) mem

/-- The entries that an enqueue uses. -/
def EnqueueOk : Prop :=
  let pool := queuePool mem queue
  slot = slotInvalid ∨ poolLock mem pool ≠ 0 ∨
    let mem := acquired mem pool
    EnqueueSlots (fun slot => ok (entryObject box (queuePool mem queue) slot)) queue slot mem

/-- The entry that a free uses. -/
def FreeOk : Prop :=
  let pool := queuePool mem queue
  poolNum mem pool ≤ slot ∨ poolLock mem pool ≠ 0 ∨ ok (entryObject box pool slot)

/-- The entries that a removal of any slot uses: that of the slot, and those of
its neighbours if it is queued. -/
def DequeueOk : Prop :=
  let pool := queuePool mem queue
  poolNum mem pool ≤ slot ∨ poolLock mem pool ≠ 0 ∨
    ok (entryObject box pool slot) ∧
      let mem := acquired mem pool
      (entryPrev mem pool slot = slotIsFree ∨ entryPrev mem pool slot = slotIsDequeued) ∨
        queueHead mem queue = slotInvalid ∨
        DequeueSlots (fun slot => ok (entryObject box (queuePool mem queue) slot)) queue slot mem

/-- What recv_match uses of the receiver, and of the sender besides its
request. -/
def MatchOk (sendBox recvBox : ℤ) (sendIo recvIo : Word) : Prop :=
  ok (ioObject recvBox recvIo) ∧
    (ioState mem recvIo = ioStateReadyToRecv →
      ok (descObject recvBox (ioDesc mem recvIo)) ∧
        (Permits sendBox mem (ioDesc mem recvIo) →
          ok (descObject sendBox (ioDesc mem sendIo))))

/-- The descriptor of the sender, and both buffers with the length that is in
it. Between the locks pointers and length are read once more. -/
def DeliverOk (sender receiver : Party) (sendIo recvIo : Word) : Prop :=
  load8 mem sender.tokensLock ≠ 0 ∨
    (receiver.tokensLock ≠ sender.tokensLock ∧
      load8 (store8 mem sender.tokensLock 1) receiver.tokensLock ≠ 0) ∨
    let sendDesc := ioDesc mem sendIo
    let mem := tokensAcquired sender receiver mem
    ok (descObject sender.box sendDesc) ∧
      ok (msgObject receiver.box (ioMsg mem recvIo) (descLen mem sendDesc)) ∧
      ok (msgObject sender.box (ioMsg mem sendIo) (descLen mem sendDesc))

end Conditions

section Touches

variable {ok : Range → Prop} (t : Trace) (box : ℤ) (pool queue : Word) (slot : BitVec 8)

@[simp] theorem touch_all (object : Range) :
    (t.touch object).All ok ↔ t.All ok ∧ ok object := by
  simp [Trace.All, Trace.touch, or_imp, forall_and]

@[simp] theorem write_all (f : Memory → Memory) : (t.write f).All ok ↔ t.All ok := Iff.rfl

@[simp] theorem touch_mem (object : Range) : (t.touch object).mem = t.mem := rfl

@[simp] theorem write_mem (f : Memory → Memory) : (t.write f).mem = f t.mem := rfl

theorem critical_all {β : Type} (f : Traced → β × Traced) :
    (t.critical box pool f).2.All ok ↔
      t.All ok ∧ (f ⟨t.mem, []⟩).2.All fun slot => ok (entryObject box pool slot) := by
  simp [Trace.All, Trace.critical, Traced.All, or_imp, forall_and]

/-- The objects of an operation are those of its critical section. -/
theorem withTrylock_all {β : Type} {failure : β} {body : Trace → β × Trace}
    (cond : Memory → Prop) (hbody : ∀ t, (body t).2.All ok ↔ t.All ok ∧ cond t.mem) :
    (t.withTrylock pool failure body).2.All ok ↔
      t.All ok ∧ (poolLock t.mem pool ≠ 0 ∨ cond (acquired t.mem pool)) := by
  unfold Trace.withTrylock
  split
  · rename_i hfree
    rw [or_iff_right (not_not.mpr hfree)]
    exact hbody (t.write fun mem => acquired mem pool)
  · rename_i hheld
    exact (and_iff_left (.inl hheld)).symm

/-- No slot of a queue has been used yet. -/
theorem all_nil {used : BitVec 8 → Prop} (mem : Memory) : Traced.All used ⟨mem, []⟩ := by
  simp [Traced.All]

theorem tryDequeueFirst_all :
    (tryDequeueFirst box queue t).2.All ok ↔ t.All ok ∧ DequeueFirstOk ok box queue t.mem := by
  unfold tryDequeueFirst DequeueFirstOk
  dsimp only
  refine withTrylock_all t _ (fun mem => queueHead mem queue = slotInvalid ∨
    DequeueSlots (fun slot => ok (entryObject box (queuePool mem queue) slot)) queue
      (queueHead mem queue) mem) fun t => ?_
  rw [critical_all, tryDequeueFirst_slots, and_iff_right (all_nil _)]

theorem tryEnqueue_all : (tryEnqueue box queue slot t).2.All ok ↔
    t.All ok ∧ EnqueueOk ok box queue slot t.mem := by
  unfold tryEnqueue EnqueueOk
  dsimp only
  by_cases hslot : slot = slotInvalid
  · simp [hslot]
  · rw [if_pos hslot, or_iff_right hslot]
    refine withTrylock_all t _ (fun mem =>
      EnqueueSlots (fun slot => ok (entryObject box (queuePool mem queue) slot)) queue slot mem)
      fun t => ?_
    rw [critical_all, enqueue_slots, and_iff_right (all_nil _)]

theorem tryFree_all : (tryFree box queue slot t).2.All ok ↔
    t.All ok ∧ FreeOk ok box queue slot t.mem := by
  unfold tryFree FreeOk
  dsimp only
  split
  · rename_i hout
    exact (and_iff_left (.inl hout)).symm
  · rename_i hslot
    rw [or_iff_right hslot]
    refine withTrylock_all t _ (fun _ => ok (entryObject box (queuePool t.mem queue) slot))
      fun u => ?_
    rw [critical_all, freeSection_slots, and_iff_right (all_nil _)]

theorem dequeueSection_all : (dequeueSection box queue pool slot t).2.All ok ↔
    t.All ok ∧ ok (entryObject box pool slot) ∧
      ((entryPrev t.mem pool slot = slotIsFree ∨ entryPrev t.mem pool slot = slotIsDequeued) ∨
        queueHead t.mem queue = slotInvalid ∨
        DequeueSlots (fun slot => ok (entryObject box (queuePool t.mem queue) slot)) queue slot
          t.mem) := by
  unfold dequeueSection
  dsimp only
  split
  · rename_i hstate
    rw [touch_mem] at hstate
    rw [touch_all, and_iff_left (Or.inl hstate)]
  · rename_i hstate
    rw [touch_mem] at hstate
    rw [or_iff_right hstate]
    split
    · rename_i hqueued
      rw [touch_mem] at hqueued
      rw [critical_all, dequeue_slots, touch_all, and_iff_right (all_nil _), or_iff_right hqueued,
        touch_mem, and_assoc]
    · rename_i hempty
      rw [touch_mem] at hempty
      rw [touch_all, and_iff_left (Or.inl (not_not.mp hempty))]

theorem tryDequeue_all : (tryDequeue box queue slot t).2.All ok ↔
    t.All ok ∧ DequeueOk ok box queue slot t.mem := by
  unfold tryDequeue DequeueOk
  dsimp only
  split
  · rename_i hout
    exact (and_iff_left (.inl hout)).symm
  · rename_i hslot
    rw [or_iff_right hslot]
    exact withTrylock_all t _ (fun mem => ok (entryObject box (queuePool t.mem queue) slot) ∧
      ((entryPrev mem (queuePool t.mem queue) slot = slotIsFree ∨
        entryPrev mem (queuePool t.mem queue) slot = slotIsDequeued) ∨
        queueHead mem queue = slotInvalid ∨
        DequeueSlots (fun slot => ok (entryObject box (queuePool mem queue) slot)) queue slot mem))
      fun u => dequeueSection_all u box _ queue slot

theorem follow_all : (follow box pool slot t).2.All ok ↔
    t.All ok ∧ ok (entryObject box pool slot) := touch_all t _

theorem recvMatch_all (sendBox recvBox : ℤ) (sendIo recvIo : Word) :
    (recvMatch sendBox recvBox sendIo recvIo t).2.All ok ↔ t.All ok ∧
      ok (ioObject sendBox sendIo) ∧ MatchOk ok t.mem sendBox recvBox sendIo recvIo := by
  unfold recvMatch MatchOk
  dsimp only
  split
  · rename_i hidle
    simp only [touch_mem] at hidle
    rw [touch_all, touch_all, and_assoc, and_iff_left fun hready => absurd hready hidle]
  · rename_i hready
    simp only [touch_mem, not_not] at hready
    rw [forall_prop_of_true hready]
    split
    · rename_i hrefused
      simp only [touch_mem] at hrefused
      rw [touch_all, touch_all, touch_all, and_iff_left fun hpermits => absurd hpermits hrefused]
      simp only [touch_mem, and_assoc]
    · rename_i hpermits
      simp only [touch_mem, not_not] at hpermits
      rw [forall_prop_of_true hpermits]
      split_ifs <;> simp only [touch_all, touch_mem, and_assoc]

theorem transfer_all (sender receiver : Party) (sendIo recvIo sendDesc recvDesc : Word) :
    (transfer sender receiver sendIo recvIo sendDesc recvDesc t).All ok ↔ t.All ok ∧
      (ok (descObject sender.box sendDesc) ∧
        ok (msgObject receiver.box (ioMsg t.mem recvIo) (descLen t.mem sendDesc)) ∧
        ok (msgObject sender.box (ioMsg t.mem sendIo) (descLen t.mem sendDesc))) ∧
      ok (descObject receiver.box recvDesc) := by
  simp [transfer, and_assoc]

theorem ipcDeliver_all (sender receiver : Party) {sendIo recvIo : Word}
    (hsend : ok (ioObject sender.box sendIo)) (hrecv : ok (ioObject receiver.box recvIo))
    (hdesc : ok (descObject receiver.box (ioDesc t.mem recvIo))) :
    (ipcDeliver sender receiver sendIo recvIo t).2.All ok ↔
      t.All ok ∧ DeliverOk ok t.mem sender receiver sendIo recvIo := by
  unfold ipcDeliver DeliverOk
  dsimp only
  split
  · rename_i hlocked
    simp only [touch_mem] at hlocked
    rw [touch_all, touch_all, and_iff_left hrecv, and_iff_left hsend,
      and_iff_left (Or.inl hlocked)]
  · rename_i hsendLock
    simp only [touch_mem] at hsendLock
    rw [or_iff_right hsendLock]
    split
    · rename_i hlocked
      simp only [touch_mem] at hlocked
      rw [write_all, touch_all, touch_all, and_iff_left hrecv, and_iff_left hsend,
        and_iff_left (Or.inl hlocked)]
    · rename_i hrecvLock
      simp only [touch_mem] at hrecvLock
      rw [or_iff_right hrecvLock, write_all, transfer_all, write_all, touch_all, touch_all,
        and_iff_left hrecv, and_iff_left hsend]
      simp only [write_mem, touch_mem]
      rw [and_iff_left hdesc]

end Touches

end Uvisor.IpcMemory
