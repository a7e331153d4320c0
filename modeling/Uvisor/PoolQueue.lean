import Uvisor.LinkedList
import Mathlib.Data.Int.Notation

/-!
# Pools of slots and the queues threaded through them

Embedding of the pool queues: a pool owns an array of management entries, its
free list and any number of queues are threaded through that array, and one
spinlock per pool serializes the updates. Queues are named, so that several
of them can share one pool as the incoming message queues do. Blocking
operations are missing a result exactly when they would spin for ever because
nobody else runs to release the lock. Slot numbers are bytes; three of the top
values are reserved, and no stored number ever exceeds the byte range.
-/

namespace Uvisor.PoolQueue

/-- UVISOR_POOL_SLOT_INVALID. -/
def slotInvalid : ℕ := 0xFF

/-- UVISOR_POOL_SLOT_IS_DEQUEUED. -/
def slotIsDequeued : ℕ := 0xFE

/-- UVISOR_POOL_SLOT_IS_FREE. -/
def slotIsFree : ℕ := 0xFD

/-- UVISOR_POOL_MAX_VALID. -/
def poolMaxValid : ℕ := 0xFC

/-- Magics are undefined Thumb-2 instructions carrying an immediate. -/
def udfOpcode (imm16 : ℕ) : ℕ :=
  0xA000F7F0 ||| ((imm16 &&& 0xFFF) <<< 16) ||| ((imm16 &&& 0xF000) >>> 12)

/-- UVISOR_POOL_MAGIC. -/
def poolMagic : ℕ := udfOpcode 0x07C4

/-- UVISOR_POOL_QUEUE_MAGIC. -/
def poolQueueMagic : ℕ := udfOpcode 0x07C5

/-- Management entry. The source overlays the prev link of a queued slot with
the state byte of a dequeued or free one, so both views read the same field. -/
structure Entry where
  /-- Next slot in the queue, or next free slot. -/
  next : ℕ
  /-- Previous slot in the queue, overlaid with the state byte. -/
  prev : ℕ
  deriving DecidableEq

/-- The state byte of the dequeued view. -/
abbrev Entry.state (entry : Entry) : ℕ := entry.prev

/-- A pool with its management array. -/
structure Pool where
  /-- Identifies the structure. -/
  magic : ℕ
  /-- Address of the data slots. -/
  array : ℕ
  /-- Distance between data slots. -/
  stride : ℕ
  /-- Number of slots. -/
  num : ℕ
  /-- Number of slots that are not free, a byte. -/
  numAllocated : ℕ
  /-- First slot of the free list. -/
  firstFree : ℕ
  /-- Whether the spinlock is acquired. -/
  spinlock : Bool
  /-- Links and states of the slots. -/
  managementArray : ℕ → Entry

/-- A queue threaded through a pool. -/
structure Queue where
  /-- Identifies the structure. -/
  magic : ℕ
  /-- First queued slot. -/
  head : ℕ
  /-- Last queued slot. -/
  tail : ℕ
  /-- Address of the pool. -/
  pool : ℕ

/-- A pool together with the queues that point to it. -/
structure PoolQueues (ι : Type) where
  /-- The shared pool. -/
  pool : Pool
  /-- Queue headers by name. -/
  queue : ι → Queue

/-- Forward links of the management array. -/
def Pool.next (pool : Pool) (slot : ℕ) : ℕ := (pool.managementArray slot).next

/-- Backward links, which are also the state bytes, of the management array. -/
def Pool.prev (pool : Pool) (slot : ℕ) : ℕ := (pool.managementArray slot).prev

/-- Write the next field of one entry. -/
def Pool.setNext (pool : Pool) (slot value : ℕ) : Pool :=
  let entry := pool.managementArray slot
  {pool with managementArray := Function.update pool.managementArray slot ⟨value, entry.prev⟩}

/-- Write the prev or state field of one entry. -/
def Pool.setPrev (pool : Pool) (slot value : ℕ) : Pool :=
  let entry := pool.managementArray slot
  {pool with managementArray := Function.update pool.managementArray slot ⟨entry.next, value⟩}

/-! ## Spinlock -/

/-- Compare-and-swap of the lock flag; the first result says who got it. -/
def uvisorSpinTrylock (acquired : Bool) : Bool × Bool :=
  if acquired = false then (true, true) else (false, acquired)

/-- Spin until the lock is obtained. With nobody else running, a held lock is
never released. -/
def uvisorSpinLock (acquired : Bool) : Option Bool :=
  if (uvisorSpinTrylock acquired).1 = true then some (uvisorSpinTrylock acquired).2 else none

/-- The lock flag is cleared without looking at it. -/
def uvisorSpinUnlock (_acquired : Bool) : Bool := false

/-- Replace the lock flag of a pool. -/
def Pool.setLock (pool : Pool) (acquired : Bool) : Pool := {pool with spinlock := acquired}

/-! ## Initialization -/

/-- Entries written by the initialization loop, up to the given bound. -/
def initEntries (array : ℕ → Entry) : ℕ → ℕ → Entry
  | 0 => array
  | i+1 => Function.update (initEntries array i) i ⟨i+1, slotIsFree⟩

/-- Initialize a pool; a bound that would collide with the reserved slot
numbers is refused and nothing is written. -/
def uvisorPoolInit (pool : Pool) (array stride num : ℕ) : ℤ × Pool :=
  if poolMaxValid ≤ num then (-1, pool)
  else
    let filled : Pool :=
      ⟨poolMagic, array, stride, num, 0, 0, pool.spinlock, initEntries pool.managementArray num⟩
    -- The entry before the first one overlays the start of the free list.
    let patched : Pool :=
      if num = 0 then {filled with firstFree := slotInvalid}
      else filled.setNext (num-1) slotInvalid
    (0, patched.setLock false)

/-- Initialize a queue together with its pool. The result of the pool's
initialization is not looked at. -/
def uvisorPoolQueueInit {ι : Type} [DecidableEq ι] (m : PoolQueues ι) (name : ι)
    (poolAddress array stride num : ℕ) : ℤ × PoolQueues ι :=
  (0, ⟨(uvisorPoolInit m.pool array stride num).2,
    Function.update m.queue name ⟨poolQueueMagic, slotInvalid, slotInvalid, poolAddress⟩⟩)

/-! ## Bodies of the critical sections -/

section Bodies

variable {ι : Type} [DecidableEq ι]

/-- Remove a slot from the front of the free list. -/
def poolAlloc (pool : Pool) : ℕ × Pool :=
  let fresh := pool.firstFree
  if pool.firstFree ≠ slotInvalid then
    let popped : Pool := {pool with firstFree := pool.next pool.firstFree}
    let marked := (popped.setNext fresh slotInvalid).setPrev fresh slotIsDequeued
    (fresh, {marked with numAllocated := (marked.numAllocated+1)%256})
  else (fresh, pool)

/-- Put a slot back at the front of the free list. -/
def poolFree (pool : Pool) (slot : ℕ) : Pool :=
  let linked := (pool.setNext slot pool.firstFree).setPrev slot slotIsFree
  {linked with firstFree := slot, numAllocated := (linked.numAllocated+255)%256}

/-- Add a slot at the back of a queue. -/
def enqueue (m : PoolQueues ι) (name : ι) (slot : ℕ) : PoolQueues ι :=
  let q := m.queue name
  if q.head = slotInvalid then
    let pool := (m.pool.setPrev slot slotInvalid).setNext slot slotInvalid
    ⟨pool, Function.update m.queue name {q with head := slot, tail := slot}⟩
  else
    let pool := ((m.pool.setNext q.tail slot).setPrev slot q.tail).setNext slot slotInvalid
    ⟨pool, Function.update m.queue name {q with tail := slot}⟩

/-- Splice a slot out of a queue and mark it dequeued. The only element, the
head, the tail and an inner element are told apart by the queue header. -/
def dequeue (m : PoolQueues ι) (name : ι) (slot : ℕ) : PoolQueues ι :=
  let q := m.queue name
  let spliced : Pool × Queue :=
    if q.head = q.tail then
      (m.pool, {q with head := slotInvalid, tail := slotInvalid})
    else if q.head = slot then
      (m.pool.setPrev (m.pool.next slot) slotInvalid, {q with head := m.pool.next slot})
    else if q.tail = slot then
      (m.pool.setNext (m.pool.prev slot) slotInvalid, {q with tail := m.pool.prev slot})
    else
      let forward := m.pool.setNext (m.pool.prev slot) (m.pool.next slot)
      (forward.setPrev (m.pool.next slot) (forward.prev slot), q)
  ⟨(spliced.1.setNext slot slotInvalid).setPrev slot slotIsDequeued,
    Function.update m.queue name spliced.2⟩

/-- Dequeue the head, if there is one. -/
def tryDequeueFirst (m : PoolQueues ι) (name : ι) : ℕ × PoolQueues ι :=
  let slot := (m.queue name).head
  if slot ≠ slotInvalid then (slot, dequeue m name slot) else (slot, m)

/-- Walk a queue up to the first slot accepted by the query. A match releases
the lock inside the walk. The walk has no result when it does not end within
its fuel. -/
def findFirstFrom (pool : Pool) (query : ℕ → Bool) : ℕ → ℕ → Option (ℕ × Pool)
  | 0, _ => none
  | fuel+1, slot =>
    if slot ≠ slotInvalid then
      if query slot = true then some (slot, pool.setLock (uvisorSpinUnlock pool.spinlock))
      else findFirstFrom pool query fuel (pool.next slot)
    else some (slotInvalid, pool)

/-- The walk from the head. A slot number is a byte, so a walk of more than
256 slots has come round and never ends. -/
def findFirst (m : PoolQueues ι) (name : ι) (query : ℕ → Bool) :
    Option (ℕ × PoolQueues ι) :=
  (findFirstFrom m.pool query 257 (m.queue name).head).map
    fun found => (found.1, {m with pool := found.2})

end Bodies

/-! ## Operations -/

section Operations

variable {ι : Type} [DecidableEq ι]

/-- Replace the lock flag of the shared pool. -/
def PoolQueues.setLock (m : PoolQueues ι) (acquired : Bool) : PoolQueues ι :=
  {m with pool := m.pool.setLock acquired}

/-- Release the lock of the shared pool. -/
def PoolQueues.unlock (m : PoolQueues ι) : PoolQueues ι :=
  m.setLock (uvisorSpinUnlock m.pool.spinlock)

/-- Body of a try operation: give up with a failure value when the lock is
held, else run the critical section between acquire and release. -/
def withTrylock {β : Type} (m : PoolQueues ι) (failure : β)
    (body : PoolQueues ι → β × PoolQueues ι) : β × PoolQueues ι :=
  let lock := uvisorSpinTrylock m.pool.spinlock
  if lock.1 = false then (failure, m.setLock lock.2)
  else
    let out := body (m.setLock lock.2)
    (out.1, out.2.unlock)

/-- Body of a blocking operation. -/
def withLock {β : Type} (m : PoolQueues ι)
    (body : PoolQueues ι → β × PoolQueues ι) : Option (β × PoolQueues ι) :=
  (uvisorSpinLock m.pool.spinlock).map fun lock =>
    let out := body (m.setLock lock)
    (out.1, out.2.unlock)

/-- Critical section of the allocations. -/
def allocateSection (m : PoolQueues ι) : ℕ × PoolQueues ι :=
  ((poolAlloc m.pool).1, {m with pool := (poolAlloc m.pool).2})

/-- Critical section of the frees: a slot that is already free is reported
and left alone. -/
def freeSection (slot : ℕ) (m : PoolQueues ι) : ℕ × PoolQueues ι :=
  if m.pool.prev slot = slotIsFree then (slotIsFree, m)
  else (slot, {m with pool := poolFree m.pool slot})

/-- Critical section of the dequeues: only the state byte is looked at to
tell that the slot is not queued, and an empty queue is left alone. -/
def dequeueSection (name : ι) (slot : ℕ) (m : PoolQueues ι) : ℕ × PoolQueues ι :=
  let state := m.pool.prev slot
  if state = slotIsFree ∨ state = slotIsDequeued then (state, m)
  else if (m.queue name).head ≠ slotInvalid then (slot, dequeue m name slot)
  else (slot, m)

/-- uvisor_pool_allocate, also behind uvisor_pool_queue_allocate. -/
def uvisorPoolAllocate (m : PoolQueues ι) : Option (ℕ × PoolQueues ι) :=
  withLock m allocateSection

/-- uvisor_pool_try_allocate, also behind uvisor_pool_queue_try_allocate. -/
def uvisorPoolTryAllocate (m : PoolQueues ι) : ℕ × PoolQueues ι :=
  withTrylock m slotInvalid allocateSection

/-- Add a slot at the back of a queue; the invalid slot is ignored. -/
def uvisorPoolQueueEnqueue (m : PoolQueues ι) (name : ι) (slot : ℕ) : Option (PoolQueues ι) :=
  if slot ≠ slotInvalid then
    (withLock m fun m => ((), enqueue m name slot)).map Prod.snd
  else some m

/-- Add a slot at the back of a queue; the status is -1 when the lock is held. -/
def uvisorPoolQueueTryEnqueue (m : PoolQueues ι) (name : ι) (slot : ℕ) : ℤ × PoolQueues ι :=
  if slot ≠ slotInvalid then withTrylock m (-1) fun m => (0, enqueue m name slot)
  else (0, m)

/-- uvisor_pool_free, also behind uvisor_pool_queue_free. -/
def uvisorPoolFree (m : PoolQueues ι) (slot : ℕ) : Option (ℕ × PoolQueues ι) :=
  if m.pool.num ≤ slot then some (slotInvalid, m) else withLock m (freeSection slot)

/-- uvisor_pool_try_free, also behind uvisor_pool_queue_try_free. -/
def uvisorPoolTryFree (m : PoolQueues ι) (slot : ℕ) : ℕ × PoolQueues ι :=
  if m.pool.num ≤ slot then (slotInvalid, m) else withTrylock m slotInvalid (freeSection slot)

/-- Remove a given slot from a queue. -/
def uvisorPoolQueueDequeue (m : PoolQueues ι) (name : ι) (slot : ℕ) :
    Option (ℕ × PoolQueues ι) :=
  if m.pool.num ≤ slot then some (slotInvalid, m) else withLock m (dequeueSection name slot)

/-- Remove a given slot from a queue unless the lock is held. -/
def uvisorPoolQueueTryDequeue (m : PoolQueues ι) (name : ι) (slot : ℕ) : ℕ × PoolQueues ι :=
  if m.pool.num ≤ slot then (slotInvalid, m)
  else withTrylock m slotInvalid (dequeueSection name slot)

/-- Remove the first slot of a queue. -/
def uvisorPoolQueueDequeueFirst (m : PoolQueues ι) (name : ι) : Option (ℕ × PoolQueues ι) :=
  withLock m fun m => tryDequeueFirst m name

/-- Remove the first slot of a queue unless the lock is held. -/
def uvisorPoolQueueTryDequeueFirst (m : PoolQueues ι) (name : ι) : ℕ × PoolQueues ι :=
  withTrylock m slotInvalid fun m => tryDequeueFirst m name

/-- Find the first slot of a queue that satisfies the query. -/
def uvisorPoolQueueFindFirst (m : PoolQueues ι) (name : ι) (query : ℕ → Bool) :
    Option (ℕ × PoolQueues ι) :=
  (uvisorSpinLock m.pool.spinlock).bind fun lock =>
    (findFirst (m.setLock lock) name query).map fun found => (found.1, found.2.unlock)

/-- Find the first slot of a queue that satisfies the query unless the lock is
held. -/
def uvisorPoolQueueTryFindFirst (m : PoolQueues ι) (name : ι) (query : ℕ → Bool) :
    Option (ℕ × PoolQueues ι) :=
  let lock := uvisorSpinTrylock m.pool.spinlock
  if lock.1 = false then some (slotInvalid, m.setLock lock.2)
  else (findFirst (m.setLock lock.2) name query).map fun found => (found.1, found.2.unlock)

end Operations

end Uvisor.PoolQueue
