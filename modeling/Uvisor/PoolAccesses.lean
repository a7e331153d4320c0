import Uvisor.RpcMemory
import Uvisor.PoolInvariant

/-!
# Pool operations on the bytes of a queue

The operations that the monitor uses follow the links of a queue and of its
free list as they find them, one byte each, and compare a link with the
invalid slot only. Each access to the management array is recorded here with
the number of slots that the pool states at that time. The header of a queue,
the pool and its entries may overlap. A pool is accessed through its secure
alias, which is the same memory.
-/

namespace Uvisor.PoolAccesses

open RpcMemory

/-- UVISOR_POOL_SLOT_INVALID. -/
def slotInvalid : BitVec 8 := 0xFF

/-- UVISOR_POOL_SLOT_IS_DEQUEUED. -/
def slotIsDequeued : BitVec 8 := 0xFE

/-- UVISOR_POOL_SLOT_IS_FREE. -/
def slotIsFree : BitVec 8 := 0xFD

/-! ## Memory with a record of accesses -/

/-- Write a byte. -/
def store8 (mem : Memory) (address : Word) (value : BitVec 8) : Memory :=
  Function.update mem address value

/-- First byte of an entry: the next slot. -/
def entryNext (mem : Memory) (pool : Word) (slot : BitVec 8) : BitVec 8 :=
  load8 mem (managementEntry pool slot.toNat)

/-- Second byte of an entry: the previous slot or the state. -/
def entryPrev (mem : Memory) (pool : Word) (slot : BitVec 8) : BitVec 8 :=
  load8 mem (managementEntry pool slot.toNat+1)

/-- One access to the management array. -/
structure Access where
  /-- Index of the entry. -/
  slot : BitVec 8
  /-- Number of slots of the pool. -/
  num : BitVec 8
  deriving DecidableEq

/-- The entry belongs to the pool. -/
def Access.Within (a : Access) : Prop := a.slot < a.num

/-- Memory, and the accesses so far. -/
structure Traced where
  /-- Memory. -/
  mem : Memory
  /-- Accesses to management arrays. -/
  accesses : List Access

/-- All accesses have been to entries of their pools. -/
def Traced.Within (t : Traced) : Prop := ∀ a ∈ t.accesses, a.Within

/-- Record an access. -/
def Traced.access (t : Traced) (pool : Word) (slot : BitVec 8) : Traced :=
  {t with accesses := t.accesses ++ [⟨slot, poolNum t.mem pool⟩]}

/-- Write a byte outside the management array. -/
def Traced.store (t : Traced) (address : Word) (value : BitVec 8) : Traced :=
  {t with mem := store8 t.mem address value}

/-- Write the next slot of an entry. -/
def Traced.setNext (t : Traced) (pool : Word) (slot value : BitVec 8) : Traced :=
  (t.access pool slot).store (managementEntry pool slot.toNat) value

/-- Write the previous slot or the state of an entry. -/
def Traced.setPrev (t : Traced) (pool : Word) (slot value : BitVec 8) : Traced :=
  (t.access pool slot).store (managementEntry pool slot.toNat+1) value

/-! ## Bodies of the critical sections -/

/-- Remove a slot from the front of the free list. -/
def poolAlloc (pool : Word) (t : Traced) : BitVec 8 × Traced :=
  let fresh := poolFirstFree t.mem pool
  if poolFirstFree t.mem pool ≠ slotInvalid then
    let t := t.access pool (poolFirstFree t.mem pool)
    let t := t.store (pool+14) (entryNext t.mem pool (poolFirstFree t.mem pool))
    let t := t.setNext pool fresh slotInvalid
    let t := t.setPrev pool fresh slotIsDequeued
    (fresh, t.store (pool+13) (poolNumAllocated t.mem pool+1))
  else (fresh, t)

/-- Put a slot back at the front of the free list. -/
def poolFree (pool : Word) (slot : BitVec 8) (t : Traced) : Traced :=
  let t := t.setNext pool slot (poolFirstFree t.mem pool)
  let t := t.setPrev pool slot slotIsFree
  let t := t.store (pool+14) slot
  t.store (pool+13) (poolNumAllocated t.mem pool-1)

/-- Add a slot at the back of a queue. -/
def enqueue (queue : Word) (slot : BitVec 8) (t : Traced) : Traced :=
  let pool := queuePool t.mem queue
  let t :=
    if queueHead t.mem queue = slotInvalid then
      let t := t.store (queue+4) slot
      t.setPrev pool (queueHead t.mem queue) slotInvalid
    else
      let t := t.setNext pool (queueTail t.mem queue) slot
      t.setPrev pool slot (queueTail t.mem queue)
  let t := t.setNext pool slot slotInvalid
  t.store (queue+5) slot

/-- Splice a slot out of a queue and mark it dequeued. A link is read again
for each use of it. -/
def dequeue (queue : Word) (slot : BitVec 8) (t : Traced) : Traced :=
  let pool := queuePool t.mem queue
  let t :=
    if queueHead t.mem queue = queueTail t.mem queue then
      (t.store (queue+4) slotInvalid).store (queue+5) slotInvalid
    else if queueHead t.mem queue = slot then
      let t := t.access pool slot
      let t := t.setPrev pool (entryNext t.mem pool slot) slotInvalid
      let t := t.access pool slot
      t.store (queue+4) (entryNext t.mem pool slot)
    else if queueTail t.mem queue = slot then
      let t := t.access pool slot
      let t := t.setNext pool (entryPrev t.mem pool slot) slotInvalid
      let t := t.access pool slot
      t.store (queue+5) (entryPrev t.mem pool slot)
    else
      let t := (t.access pool slot).access pool slot
      let next := entryNext t.mem pool slot
      let prev := entryPrev t.mem pool slot
      let t := t.access pool slot
      let t := t.setNext pool prev (entryNext t.mem pool slot)
      let t := t.access pool slot
      t.setPrev pool next (entryPrev t.mem pool slot)
  let t := t.setNext pool slot slotInvalid
  t.setPrev pool slot slotIsDequeued

/-- Dequeue the head, if there is one. -/
def tryDequeueFirst (queue : Word) (t : Traced) : BitVec 8 × Traced :=
  let slot := queueHead t.mem queue
  if queueHead t.mem queue ≠ slotInvalid then (slot, dequeue queue slot t) else (slot, t)

/-- Critical section of a free. -/
def freeSection (pool : Word) (slot : BitVec 8) (t : Traced) : BitVec 8 × Traced :=
  let t := t.access pool slot
  let state := entryPrev t.mem pool slot
  if state = slotIsFree then (state, t) else (slot, poolFree pool slot t)

/-! ## Operations -/

/-- Give up when the lock is held, else run the critical section between
acquire and release. -/
def withTrylock {β : Type} (pool : Word) (failure : β) (body : Traced → β × Traced)
    (t : Traced) : β × Traced :=
  if poolLock t.mem pool = 0 then
    let out := body (t.store (pool+15) 1)
    (out.1, out.2.store (pool+15) 0)
  else (failure, t)

/-- uvisor_pool_queue_try_allocate. -/
def uvisorPoolQueueTryAllocate (queue : Word) (t : Traced) : BitVec 8 × Traced :=
  let pool := queuePool t.mem queue
  withTrylock pool slotInvalid (poolAlloc pool) t

/-- uvisor_pool_queue_try_enqueue. -/
def uvisorPoolQueueTryEnqueue (queue : Word) (slot : BitVec 8) (t : Traced) : ℤ × Traced :=
  let pool := queuePool t.mem queue
  if slot ≠ slotInvalid then withTrylock pool (-1) (fun t => (0, enqueue queue slot t)) t
  else (0, t)

/-- uvisor_pool_queue_try_free. -/
def uvisorPoolQueueTryFree (queue : Word) (slot : BitVec 8) (t : Traced) : BitVec 8 × Traced :=
  let pool := queuePool t.mem queue
  if poolNum t.mem pool ≤ slot then (slotInvalid, t)
  else withTrylock pool slotInvalid (freeSection pool slot) t

/-- uvisor_pool_queue_try_dequeue_first. -/
def uvisorPoolQueueTryDequeueFirst (queue : Word) (t : Traced) : BitVec 8 × Traced :=
  let pool := queuePool t.mem queue
  withTrylock pool slotInvalid (tryDequeueFirst queue) t

/-! ## The links that an operation is about to follow -/

/-- Memory after the lock of a pool has been taken. -/
def acquired (mem : Memory) (pool : Word) : Memory := store8 mem (pool+15) 1

/-- The free list starts with a slot of the pool, if it starts at all. -/
def AllocateLinked (queue : Word) (mem : Memory) : Prop :=
  let pool := queuePool mem queue
  poolLock mem pool ≠ 0 ∨ poolFirstFree mem pool = slotInvalid ∨
    poolFirstFree mem pool < poolNum mem pool

/-- The header of a queue, which the pool's number of slots may overlap, and
the slot to enqueue. The tail matters only when there is a head. -/
def BackLinked (queue : Word) (slot : BitVec 8) (mem : Memory) : Prop :=
  let pool := queuePool mem queue
  slot < poolNum mem pool ∧
    if queueHead mem queue = slotInvalid then pool+12 ≠ queue+4
    else queueTail mem queue < poolNum mem pool

/-- The queue ends with a slot of the pool, if it is not empty, and the slot to
enqueue is one too. -/
def EnqueueLinked (queue : Word) (slot : BitVec 8) (mem : Memory) : Prop :=
  let pool := queuePool mem queue
  slot = slotInvalid ∨ poolLock mem pool ≠ 0 ∨ BackLinked queue slot (acquired mem pool)

/-- The head of a queue and the link from it. The link matters only when there
is more than one element. -/
def FrontLinked (queue : Word) (mem : Memory) : Prop :=
  let pool := queuePool mem queue
  let head := queueHead mem queue
  if head = queueTail mem queue then
    head < poolNum mem pool ∨ pool+12 = queue+4 ∨ pool+12 = queue+5
  else head < poolNum mem pool ∧ entryNext mem pool head < poolNum mem pool

/-- The queue starts with a slot of the pool, if it is not empty, and so does
what is left of it. -/
def DequeueLinked (queue : Word) (mem : Memory) : Prop :=
  let pool := queuePool mem queue
  poolLock mem pool ≠ 0 ∨ queueHead (acquired mem pool) queue = slotInvalid ∨
    FrontLinked queue (acquired mem pool)

/-! ## What the writes leave alone -/

section Writes

variable (t : Traced) (pool address : Word) (slot value : BitVec 8)

@[simp] theorem access_mem : (t.access pool slot).mem = t.mem := rfl
@[simp] theorem store_mem : (t.store address value).mem = store8 t.mem address value := rfl
@[simp] theorem setNext_mem : (t.setNext pool slot value).mem =
    store8 t.mem (managementEntry pool slot.toNat) value := rfl
@[simp] theorem setPrev_mem : (t.setPrev pool slot value).mem =
    store8 t.mem (managementEntry pool slot.toNat+1) value := rfl

@[simp] theorem within_access :
    (t.access pool slot).Within ↔ t.Within ∧ slot < poolNum t.mem pool := by
  simp [Traced.Within, Traced.access, or_imp, forall_and, Access.Within]

@[simp] theorem within_store : (t.store address value).Within ↔ t.Within := Iff.rfl

@[simp] theorem within_setNext :
    (t.setNext pool slot value).Within ↔ t.Within ∧ slot < poolNum t.mem pool :=
  within_access t pool slot

@[simp] theorem within_setPrev :
    (t.setPrev pool slot value).Within ↔ t.Within ∧ slot < poolNum t.mem pool :=
  within_access t pool slot

variable (mem : Memory)

/-- A byte that has been written. -/
theorem load8_store8_self : load8 (store8 mem address value) address = value :=
  Function.update_self ..

variable {mem address}

/-- All other bytes. -/
theorem load8_store8_ne {other : Word} (hne : other ≠ address) :
    load8 (store8 mem address value) other = load8 mem other :=
  Function.update_of_ne hne ..

/-- The entries do not overlap the header of their pool. -/
theorem entry_ne_header (k : ℕ) (hk : k < 16) :
    pool+BitVec.ofNat 32 k ≠ managementEntry pool slot.toNat ∧
      pool+BitVec.ofNat 32 k ≠ managementEntry pool slot.toNat+1 := by
  have hslot := slot.isLt
  unfold managementEntry poolBytes entryBytes
  constructor <;> intro he <;> bv_omega

theorem poolNum_setNext :
    poolNum (store8 mem (managementEntry pool slot.toNat) value) pool = poolNum mem pool :=
  load8_store8_ne _ (entry_ne_header pool slot 12 (by decide)).1

theorem poolNum_setPrev :
    poolNum (store8 mem (managementEntry pool slot.toNat+1) value) pool = poolNum mem pool :=
  load8_store8_ne _ (entry_ne_header pool slot 12 (by decide)).2

theorem poolNum_lock : poolNum (store8 mem (pool+15) value) pool = poolNum mem pool :=
  load8_store8_ne _ (by bv_omega)

theorem poolNum_firstFree :
    poolNum (store8 mem (pool+14) value) pool = poolNum mem pool :=
  load8_store8_ne _ (by bv_omega)

theorem poolFirstFree_lock :
    poolFirstFree (store8 mem (pool+15) value) pool = poolFirstFree mem pool :=
  load8_store8_ne _ (by bv_omega)

/-- The number of slots after any write. -/
theorem poolNum_store8 : poolNum (store8 mem address value) pool =
    if pool+12 = address then value else poolNum mem pool := by
  split
  · rename_i he
    subst he
    exact load8_store8_self ..
  · rename_i hne
    exact load8_store8_ne _ hne

end Writes

/-! ## Accesses of the critical sections -/

section Sections

variable (t : Traced) (pool queue : Word) (slot : BitVec 8)

/-- An allocation follows the first link of the free list. -/
theorem poolAlloc_within : (poolAlloc pool t).2.Within ↔ t.Within ∧
    (poolFirstFree t.mem pool = slotInvalid ∨ poolFirstFree t.mem pool < poolNum t.mem pool) := by
  unfold poolAlloc
  dsimp only
  split
  · rename_i hsome
    simp only [within_store, within_setPrev, within_setNext, within_access, setNext_mem, store_mem,
      access_mem, poolNum_setNext, poolNum_firstFree, hsome, false_or, and_assoc, and_self]
  · rename_i hnone
    rw [not_not.mp hnone]
    simp

/-- A free only uses the slot that it frees. -/
theorem freeSection_within :
    (freeSection pool slot t).2.Within ↔ t.Within ∧ slot < poolNum t.mem pool := by
  unfold freeSection
  dsimp only
  split
  · exact within_access t pool slot
  · simp only [poolFree, within_store, within_setPrev, within_setNext, within_access, setNext_mem,
      access_mem, poolNum_setNext, and_assoc, and_self]

/-- An enqueue follows the tail if there is a head. With no head it writes the
header first, and the number of slots with it where the two overlap. -/
theorem enqueue_within :
    (enqueue queue slot t).Within ↔ t.Within ∧ BackLinked queue slot t.mem := by
  unfold enqueue BackLinked
  dsimp only
  by_cases hempty : queueHead t.mem queue = slotInvalid
  · have hhead : queueHead (store8 t.mem (queue+4) slot) queue = slot := load8_store8_self ..
    simp only [hempty, if_true, within_store, within_setNext, within_setPrev, store_mem,
      setPrev_mem, poolNum_setPrev, hhead, and_assoc, and_self]
    rw [poolNum_store8]
    split
    · rename_i halias
      simp only [BitVec.lt_irrefl, halias, ne_eq, not_true_eq_false, and_false]
    · rename_i hne
      simp only [hne, ne_eq, not_false_eq_true, and_true]
  · simp only [hempty, if_false, within_store, within_setNext, within_setPrev, setNext_mem,
      setPrev_mem, poolNum_setPrev, poolNum_setNext]
    tauto

/-- A dequeue of the only element writes the header before the entry. -/
theorem dequeue_last_within (hqueued : queueHead t.mem queue ≠ slotInvalid)
    (hlast : queueHead t.mem queue = queueTail t.mem queue) :
    (dequeue queue (queueHead t.mem queue) t).Within ↔ t.Within ∧ FrontLinked queue t.mem := by
  have hbyte : queueHead t.mem queue < slotInvalid := by
    unfold slotInvalid at hqueued ⊢
    bv_omega
  unfold dequeue FrontLinked
  dsimp only
  rw [if_pos hlast, if_pos hlast]
  simp only [within_setNext, within_setPrev, within_store, setNext_mem, store_mem,
    poolNum_setNext, and_assoc, and_self]
  rw [poolNum_store8, poolNum_store8]
  split
  · rename_i htail
    simp only [hbyte, htail, or_true]
  · split
    · rename_i hhead
      simp only [hbyte, hhead, true_or, or_true]
    · rename_i htail hhead
      simp only [htail, hhead, or_false]

/-- A dequeue of the head of several elements follows the link from it. -/
theorem dequeue_first_within (hmore : queueHead t.mem queue ≠ queueTail t.mem queue) :
    (dequeue queue (queueHead t.mem queue) t).Within ↔ t.Within ∧ FrontLinked queue t.mem := by
  unfold dequeue FrontLinked
  dsimp only
  rw [if_neg hmore, if_neg hmore, if_pos rfl]
  simp only [within_setNext, within_setPrev, within_store, within_access, setNext_mem,
    setPrev_mem, store_mem, access_mem, poolNum_setNext, poolNum_setPrev]
  constructor
  · rintro ⟨⟨⟨⟨⟨ht, hhead⟩, hnext⟩, -⟩, -⟩, -⟩
    exact ⟨ht, hhead, hnext⟩
  · rintro ⟨ht, hhead, hnext⟩
    have hheader : queuePool t.mem queue+12 ≠ queue+4 := by
      -- The number of slots would be the head, which is below it.
      intro halias
      have hnum : poolNum t.mem (queuePool t.mem queue) = queueHead t.mem queue :=
        congrArg (load8 t.mem) halias
      rw [hnum] at hhead
      exact BitVec.lt_irrefl _ hhead
    have hnum (prev value : BitVec 8) : poolNum (store8 (store8 t.mem (managementEntry
        (queuePool t.mem queue) prev.toNat+1) slotInvalid) (queue+4) value)
          (queuePool t.mem queue) = poolNum t.mem (queuePool t.mem queue) := by
      rw [poolNum_store8, if_neg hheader, poolNum_setPrev]
    simp only [hnum]
    exact ⟨⟨⟨⟨⟨ht, hhead⟩, hnext⟩, hhead⟩, hhead⟩, hhead⟩

/-- So does the removal of the first slot of a queue that is not empty. -/
theorem tryDequeueFirst_within : (tryDequeueFirst queue t).2.Within ↔ t.Within ∧
    (queueHead t.mem queue = slotInvalid ∨ FrontLinked queue t.mem) := by
  by_cases hempty : queueHead t.mem queue = slotInvalid
  · simp [tryDequeueFirst, hempty]
  · have hsection : (tryDequeueFirst queue t).2 = dequeue queue (queueHead t.mem queue) t := by
      rw [tryDequeueFirst, if_pos hempty]
    rw [hsection, or_iff_right hempty]
    by_cases hlast : queueHead t.mem queue = queueTail t.mem queue
    · exact dequeue_last_within t queue hempty hlast
    · exact dequeue_first_within t queue hlast

end Sections

/-! ## Accesses of the operations -/

section Operations

variable (t : Traced) (queue : Word) (slot : BitVec 8)

/-- The accesses of an operation are those of its critical section. -/
theorem withTrylock_within {β : Type} {pool : Word} {failure : β} {body : Traced → β × Traced} :
    (withTrylock pool failure body t).2.Within ↔
      if poolLock t.mem pool = 0 then (body (t.store (pool+15) 1)).2.Within else t.Within := by
  unfold withTrylock
  split
  · exact within_store _ _ _
  · rfl

/-- An allocation stays within its pool exactly if the free list starts with a
slot. -/
theorem uvisorPoolQueueTryAllocate_within :
    (uvisorPoolQueueTryAllocate queue t).2.Within ↔ t.Within ∧ AllocateLinked queue t.mem := by
  unfold uvisorPoolQueueTryAllocate AllocateLinked
  dsimp only
  rw [withTrylock_within]
  split
  · rename_i hfree
    rw [poolAlloc_within, store_mem, poolFirstFree_lock, poolNum_lock, within_store]
    simp only [hfree, ne_eq, not_true_eq_false, false_or]
  · rename_i hheld
    simp only [hheld, ne_eq, not_false_eq_true, true_or, and_true]

/-- An enqueue stays within its pool exactly if the slot and the tail that it
follows are slots. -/
theorem uvisorPoolQueueTryEnqueue_within : (uvisorPoolQueueTryEnqueue queue slot t).2.Within ↔
    t.Within ∧ EnqueueLinked queue slot t.mem := by
  unfold uvisorPoolQueueTryEnqueue EnqueueLinked
  dsimp only
  by_cases hslot : slot = slotInvalid
  · simp [hslot]
  · rw [if_pos hslot, withTrylock_within]
    split
    · rename_i hfree
      rw [enqueue_within, within_store]
      simp only [hfree, hslot, ne_eq, not_true_eq_false, false_or]
      rfl
    · rename_i hheld
      simp only [hheld, ne_eq, not_false_eq_true, true_or, or_true, and_true]

/-- A free always stays within its pool. -/
theorem uvisorPoolQueueTryFree_within :
    (uvisorPoolQueueTryFree queue slot t).2.Within ↔ t.Within := by
  unfold uvisorPoolQueueTryFree
  dsimp only
  split
  · rfl
  · rename_i hslot
    rw [withTrylock_within]
    split
    · rw [freeSection_within, store_mem, poolNum_lock, within_store]
      exact and_iff_left (BitVec.not_le.mp hslot)
    · rfl

/-- A removal of the first slot stays within its pool exactly if the links that
it follows are slots. -/
theorem uvisorPoolQueueTryDequeueFirst_within :
    (uvisorPoolQueueTryDequeueFirst queue t).2.Within ↔ t.Within ∧ DequeueLinked queue t.mem := by
  unfold uvisorPoolQueueTryDequeueFirst DequeueLinked
  dsimp only
  rw [withTrylock_within]
  split
  · rename_i hfree
    rw [tryDequeueFirst_within, within_store]
    simp only [hfree, ne_eq, not_true_eq_false, false_or]
    rfl
  · rename_i hheld
    simp only [hheld, ne_eq, not_false_eq_true, true_or, and_true]

end Operations

/-! ## Slots that the critical sections use -/

section Slots

variable {used : BitVec 8 → Prop} (t : Traced) (pool queue address : Word)
  (slot value : BitVec 8)

/-- All entries that have been accessed meet a condition. -/
def Traced.All (used : BitVec 8 → Prop) (t : Traced) : Prop := ∀ a ∈ t.accesses, used a.slot

@[simp] theorem all_access : (t.access pool slot).All used ↔ t.All used ∧ used slot := by
  simp [Traced.All, Traced.access, or_imp, forall_and]

@[simp] theorem all_store : (t.store address value).All used ↔ t.All used := Iff.rfl

@[simp] theorem all_setNext :
    (t.setNext pool slot value).All used ↔ t.All used ∧ used slot := all_access t pool slot

@[simp] theorem all_setPrev :
    (t.setPrev pool slot value).All used ↔ t.All used ∧ used slot := all_access t pool slot

/-- The slot to enqueue, and the tail if there is one. -/
def EnqueueSlots (used : BitVec 8 → Prop) (queue : Word) (slot : BitVec 8) (mem : Memory) : Prop :=
  used slot ∧ (queueHead mem queue = slotInvalid ∨ used (queueTail mem queue))

/-- The slot to dequeue and its neighbours, as far as the head and the tail say
that it has some. -/
def DequeueSlots (used : BitVec 8 → Prop) (queue : Word) (slot : BitVec 8) (mem : Memory) : Prop :=
  let pool := queuePool mem queue
  used slot ∧
    if queueHead mem queue = queueTail mem queue then True
    else if queueHead mem queue = slot then used (entryNext mem pool slot)
    else if queueTail mem queue = slot then used (entryPrev mem pool slot)
    else used (entryNext mem pool slot) ∧ used (entryPrev mem pool slot)

theorem enqueue_slots :
    (enqueue queue slot t).All used ↔ t.All used ∧ EnqueueSlots used queue slot t.mem := by
  unfold enqueue EnqueueSlots
  dsimp only
  by_cases hempty : queueHead t.mem queue = slotInvalid
  · have hhead : queueHead (store8 t.mem (queue+4) slot) queue = slot := load8_store8_self ..
    simp only [hempty, if_true, all_store, all_setNext, all_setPrev, store_mem, hhead, true_or,
      and_true, and_assoc, and_self]
  · simp only [hempty, if_false, all_store, all_setNext, all_setPrev, false_or]
    tauto

theorem dequeue_slots :
    (dequeue queue slot t).All used ↔ t.All used ∧ DequeueSlots used queue slot t.mem := by
  unfold dequeue DequeueSlots
  dsimp only
  split_ifs with hlast hhead htail
  · simp only [all_store, all_setNext, all_setPrev, and_true, and_assoc, and_self]
  · simp only [all_store, all_setNext, all_setPrev, all_access, access_mem]
    tauto
  · simp only [all_store, all_setNext, all_setPrev, all_access, access_mem]
    tauto
  · simp only [all_setNext, all_setPrev, all_access, access_mem]
    tauto

theorem tryDequeueFirst_slots : (tryDequeueFirst queue t).2.All used ↔ t.All used ∧
    (queueHead t.mem queue = slotInvalid ∨
      DequeueSlots used queue (queueHead t.mem queue) t.mem) := by
  by_cases hempty : queueHead t.mem queue = slotInvalid
  · simp [tryDequeueFirst, hempty]
  · rw [or_iff_right hempty, ← dequeue_slots, tryDequeueFirst, if_pos hempty]

theorem freeSection_slots :
    (freeSection pool slot t).2.All used ↔ t.All used ∧ used slot := by
  unfold freeSection
  dsimp only
  split
  · exact all_access t pool slot
  · simp only [poolFree, all_store, all_setNext, all_setPrev, all_access, and_assoc, and_self]

end Slots

/-! ## Queues that are in order -/

section Ordered

variable {mem : Memory} {queue : Word} {free : List ℕ} {lists : Unit → List ℕ}

open PoolInvariant

/-- The first slot of a queue that represents a list. -/
theorem head_of_represents (h : Represents (queueView mem queue) free lists)
    (hqueued : queueHead mem queue ≠ slotInvalid) :
    ∃ rest, lists () = (queueHead mem queue).toNat :: rest := by
  have hhead : (queueHead mem queue).toNat = (lists ()).headD PoolQueue.slotInvalid := h.head ()
  cases hlist : lists () with
  | nil =>
    rw [hlist] at hhead
    exact absurd (BitVec.eq_of_toNat_eq hhead) hqueued
  | cons slot rest =>
    rw [hlist] at hhead
    exact ⟨rest, by rw [hhead]; rfl⟩

/-- Links between queued slots lead to slots. -/
theorem frontLinked_of_represents (h : Represents (queueView mem queue) free lists)
    (hqueued : queueHead mem queue ≠ slotInvalid) : FrontLinked queue mem := by
  obtain ⟨rest, hlist⟩ := head_of_represents h hqueued
  have hlt : ∀ slot ∈ lists (), slot < (poolNum mem (queuePool mem queue)).toNat := h.lists_lt ()
  have hhead : queueHead mem queue < poolNum mem (queuePool mem queue) := by
    rw [BitVec.lt_def]
    exact hlt _ (by rw [hlist]; exact List.mem_cons_self)
  unfold FrontLinked
  dsimp only
  split
  · exact .inl hhead
  · rename_i hmore
    refine ⟨hhead, ?_⟩
    have hlinked := h.linked ()
    have htail : (queueTail mem queue).toNat = (lists ()).getLastD PoolQueue.slotInvalid :=
      h.tail ()
    rw [hlist] at hlinked htail
    cases rest with
    | nil => exact absurd (BitVec.eq_of_toNat_eq htail).symm hmore
    | cons next rest =>
      have hnext : (entryNext mem (queuePool mem queue) (queueHead mem queue)).toNat = next :=
        hlinked.2.1
      rw [BitVec.lt_def, hnext]
      exact hlt _ (by rw [hlist]; simp)

/-- So a removal from a queue that is in order stays within its pool. -/
theorem dequeueLinked_of_represents
    (h : Represents (queueView (acquired mem (queuePool mem queue)) queue) free lists) :
    DequeueLinked queue mem := by
  by_cases hempty : queueHead (acquired mem (queuePool mem queue)) queue = slotInvalid
  · exact .inr (.inl hempty)
  · exact .inr (.inr (frontLinked_of_represents h hempty))

/-- An allocation from a pool that is in order stays within it. -/
theorem allocateLinked_of_represents (h : Represents (queueView mem queue) free lists) :
    AllocateLinked queue mem := by
  have hfirst : (poolFirstFree mem (queuePool mem queue)).toNat =
    free.headD PoolQueue.slotInvalid := h.free_head
  refine .inr ?_
  cases free with
  | nil => exact .inl (BitVec.eq_of_toNat_eq hfirst)
  | cons slot free =>
    refine .inr ?_
    rw [BitVec.lt_def, hfirst]
    exact h.free_lt _ List.mem_cons_self

/-- An enqueue of a slot to a queue that is in order stays within its pool, if
the header of the queue is apart from the number of slots. -/
theorem enqueueLinked_of_represents {slot : BitVec 8}
    (h : Represents (queueView (acquired mem (queuePool mem queue)) queue) free lists)
    (hslot : slot < poolNum (acquired mem (queuePool mem queue))
      (queuePool (acquired mem (queuePool mem queue)) queue))
    (hapart : queuePool (acquired mem (queuePool mem queue)) queue+12 ≠ queue+4) :
    EnqueueLinked queue slot mem := by
  refine .inr (.inr ⟨hslot, ?_⟩)
  split
  · exact hapart
  · rename_i hqueued
    obtain ⟨rest, hlist⟩ := head_of_represents h hqueued
    have htail : (queueTail (acquired mem (queuePool mem queue)) queue).toNat =
      (lists ()).getLastD PoolQueue.slotInvalid := h.tail ()
    rw [BitVec.lt_def, htail]
    exact h.lists_lt () _ (LinkedList.getLastD_mem (by rw [hlist]; simp) _)

end Ordered

end Uvisor.PoolAccesses
