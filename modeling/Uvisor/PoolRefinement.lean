import Uvisor.PoolLocking

/-!
# Pool queues are first-in first-out lists

Seen from outside, a pool is a free list and one list of slots for every
queue. Walks along the links of a well-formed pool read these lists off, and
every operation acts on them as the list machine says: what is enqueued is
appended, what is dequeued first was at the front, and the other queues of
the pool keep their lists.
-/

namespace Uvisor.PoolRefinement

open PoolQueue LinkedList PoolInvariant PoolOperations
open PoolLocking (Operation)

variable {ι : Type}

/-! ## The list machine -/

/-- A pool as its users see it. -/
structure ListPool (ι : Type) where
  /-- Number of slots. -/
  num : ℕ
  /-- Free slots, the next one to be allocated first. -/
  free : List ℕ
  /-- Slots of every queue, in order. -/
  queue : ι → List ℕ

/-- The slot is neither free nor queued. -/
def ListPool.Held (p : ListPool ι) (slot : ℕ) : Prop :=
  slot < p.num ∧ slot ∉ p.free ∧ ∀ i, slot ∉ p.queue i

section Machine

variable [DecidableEq ι]

/-- Replace the list of one queue. -/
def ListPool.setQueue (p : ListPool ι) (name : ι) (l : List ℕ) : ListPool ι :=
  {p with queue := Function.update p.queue name l}

/-- What an operation reports and does to the lists. -/
def onLists (p : ListPool ι) : Operation ι → ℕ × ListPool ι
  | .allocate => (p.free.headD slotInvalid, {p with free := p.free.tail})
  | .enqueue name slot => (slot, p.setQueue name (p.queue name ++ [slot]))
  | .free slot =>
    if p.num ≤ slot then (slotInvalid, p)
    else if slot ∈ p.free then (slotIsFree, p)
    else (slot, {p with free := slot :: p.free})
  | .dequeue name slot =>
    if p.num ≤ slot then (slotInvalid, p)
    else if slot ∈ p.queue name then (slot, p.setQueue name ((p.queue name).erase slot))
    else if slot ∈ p.free then (slotIsFree, p)
    else (slotIsDequeued, p)
  | .dequeueFirst name =>
    ((p.queue name).headD slotInvalid, p.setQueue name (p.queue name).tail)
  | .findFirst name query => (((p.queue name).find? query).getD slotInvalid, p)

/-- No operation changes the bound. -/
theorem onLists_num (p : ListPool ι) (op : Operation ι) : (onLists p op).2.num = p.num := by
  cases op with
  | allocate => rfl
  | enqueue name slot => rfl
  | free slot =>
    unfold onLists
    dsimp only
    split
    · rfl
    · split <;> rfl
  | dequeue name slot =>
    unfold onLists
    dsimp only
    split
    · rfl
    · split
      · rfl
      · split <;> rfl
  | dequeueFirst name => rfl
  | findFirst name query => rfl

/-- Only held slots are enqueued, no slot of another queue is dequeued, and no
queued slot is freed. -/
def Admissible (p : ListPool ι) : Operation ι → Prop
  | .enqueue _ slot => p.Held slot
  | .free slot => ∀ i, slot ∉ p.queue i
  | .dequeue name slot => ∀ i, i ≠ name → slot ∉ p.queue i
  | _ => True

end Machine

/-! ## Operations with their reports -/

section Calls

variable [DecidableEq ι]

/-- The blocking form of an operation. Enqueueing reports nothing and is
given the slot as its report. -/
def blocking (m : PoolQueues ι) : Operation ι → Option (ℕ × PoolQueues ι)
  | .allocate => uvisorPoolAllocate m
  | .enqueue name slot => (uvisorPoolQueueEnqueue m name slot).map fun m' => (slot, m')
  | .free slot => uvisorPoolFree m slot
  | .dequeue name slot => uvisorPoolQueueDequeue m name slot
  | .dequeueFirst name => uvisorPoolQueueDequeueFirst m name
  | .findFirst name query => uvisorPoolQueueFindFirst m name query

/-- The try form of an operation. The status of an enqueue is told apart by
the invalid slot. -/
def trying (m : PoolQueues ι) : Operation ι → Option (ℕ × PoolQueues ι)
  | .allocate => some (uvisorPoolTryAllocate m)
  | .enqueue name slot =>
    let out := uvisorPoolQueueTryEnqueue m name slot
    some (if out.1 = 0 then slot else slotInvalid, out.2)
  | .free slot => some (uvisorPoolTryFree m slot)
  | .dequeue name slot => some (uvisorPoolQueueTryDequeue m name slot)
  | .dequeueFirst name => some (uvisorPoolQueueTryDequeueFirst m name)
  | .findFirst name query => uvisorPoolQueueTryFindFirst m name query

/-- On a free lock both forms do the same. -/
theorem trying_of_free {m : PoolQueues ι} (hl : m.pool.spinlock = false) (op : Operation ι) :
    trying m op = blocking m op := by
  cases op with
  | allocate => exact (allocate_of_free hl).symm
  | enqueue name slot =>
    have hstatus : (uvisorPoolQueueTryEnqueue m name slot).1 = 0 := by
      unfold uvisorPoolQueueTryEnqueue
      split
      · rw [withTrylock_of_free hl]
      · rfl
    simp [trying, blocking, enqueue_of_free hl, hstatus]
  | free slot => exact (free_of_free hl slot).symm
  | dequeue name slot => exact (dequeue_of_free hl name slot).symm
  | dequeueFirst name => exact (withLock_of_free hl).symm
  | findFirst name query => exact (findFirst_of_free hl name query).symm

/-- On a held lock the try form changes nothing and reports a failure, unless
it is an enqueue of the invalid slot, which does not look at the lock. -/
theorem trying_of_held {m : PoolQueues ι} (hl : m.pool.spinlock = true) (op : Operation ι) :
    trying m op = some (slotInvalid, m) := by
  cases op with
  | allocate => exact congrArg some (withTrylock_of_held hl)
  | enqueue name slot =>
    by_cases hslot : slot = slotInvalid
    · simp [trying, uvisorPoolQueueTryEnqueue, hslot]
    · simp [trying, uvisorPoolQueueTryEnqueue, hslot, withTrylock_of_held hl]
  | free slot =>
    simp only [trying, uvisorPoolTryFree]
    split
    · rfl
    · rw [withTrylock_of_held hl]
  | dequeue name slot =>
    simp only [trying, uvisorPoolQueueTryDequeue]
    split
    · rfl
    · rw [withTrylock_of_held hl]
  | dequeueFirst name => exact congrArg some (withTrylock_of_held hl)
  | findFirst name query =>
    rcases m with ⟨pool, queue⟩
    rcases pool with ⟨magic, array, stride, num, numAllocated, firstFree, spinlock, entries⟩
    simp only at hl
    subst hl
    rfl

end Calls

/-! ## The abstraction -/

/-- The free slots in order, as a walk from the first one finds them. -/
def freeSlots (m : PoolQueues ι) : List ℕ := slotsFrom m.pool 257 m.pool.firstFree

/-- The lists that walks along the links find. -/
def listPool (m : PoolQueues ι) : ListPool ι := ⟨m.pool.num, freeSlots m, queueSlots m⟩

/-- The lists found by the walks describe the pool. -/
def WellFormed (m : PoolQueues ι) : Prop := Represents m (freeSlots m) (queueSlots m)

section Abstraction

variable {m : PoolQueues ι} {free : List ℕ} {lists : ι → List ℕ}

/-- No free list is longer than the pool. -/
theorem Represents.free_length_le (h : Represents m free lists) : free.length ≤ m.pool.num := by
  have ha := h.allocated
  omega

/-- The walk over the free list finds the described one. -/
theorem Represents.freeSlots_eq (h : Represents m free lists) : freeSlots m = free := by
  have hlen := Represents.free_length_le h
  have hnum := h.num_lt
  unfold freeSlots
  rw [h.free_head]
  refine slotsFrom_chained ?_ h.free_chain fun s hs => (h.lt_reserved (h.free_lt s hs)).1
  simp only [poolMaxValid] at hnum
  omega

/-- The lists of a described pool are found by the walks. -/
theorem Represents.listPool_eq (h : Represents m free lists) :
    listPool m = ⟨m.pool.num, free, lists⟩ := by
  have hq : queueSlots m = lists := funext (Represents.queueSlots_eq h)
  rw [listPool, Represents.freeSlots_eq h, hq]

/-- A described pool is well formed. -/
theorem Represents.wellFormed (h : Represents m free lists) : WellFormed m := by
  have hq : queueSlots m = lists := funext (Represents.queueSlots_eq h)
  rw [WellFormed, Represents.freeSlots_eq h, hq]
  exact h

/-- Allocation keeps the bound. -/
theorem tryAllocate_num (m : PoolQueues ι) :
    (uvisorPoolTryAllocate m).2.pool.num = m.pool.num := by
  cases hl : m.pool.spinlock with
  | false =>
    rw [uvisorPoolTryAllocate, withTrylock_of_free hl]
    change (poolAlloc (m.setLock true).pool).2.num = m.pool.num
    unfold poolAlloc
    dsimp only
    split <;> rfl
  | true => rw [uvisorPoolTryAllocate, withTrylock_of_held hl]

/-- Freeing keeps the bound. -/
theorem tryFree_num (m : PoolQueues ι) (slot : ℕ) :
    (uvisorPoolTryFree m slot).2.pool.num = m.pool.num := by
  unfold uvisorPoolTryFree
  split
  · rfl
  · cases hl : m.pool.spinlock with
    | false =>
      rw [withTrylock_of_free hl]
      unfold freeSection
      split <;> rfl
    | true => rw [withTrylock_of_held hl]

end Abstraction

/-! ## The refinement -/

section Refinement

variable [DecidableEq ι] {m : PoolQueues ι} {free : List ℕ} {lists : ι → List ℕ}

/-- An operation went as the list machine says. -/
structure Refines (m : PoolQueues ι) (op : Operation ι) (report : ℕ) (m' : PoolQueues ι) : Prop where
  /-- The report is that of the list machine. -/
  report_eq : report = (onLists (listPool m) op).1
  /-- The lists are those of the list machine. -/
  lists_eq : listPool m' = (onLists (listPool m) op).2
  /-- The pool is well formed again. -/
  wellFormed : WellFormed m'
  /-- The lock is free again. -/
  spinlock : m'.pool.spinlock = false

/-- An operation that reports without changing the pool. -/
theorem Refines.of_same {op : Operation ι} {report : ℕ} (hw : WellFormed m)
    (hl : m.pool.spinlock = false) (h : onLists (listPool m) op = (report, listPool m)) :
    Refines m op report m :=
  ⟨by rw [h], by rw [h], hw, hl⟩

/-- An operation whose result is described. -/
theorem Refines.of_represents {op : Operation ι} {report : ℕ} {m' : PoolQueues ι}
    (hr : Represents m' free lists) (hl : m'.pool.spinlock = false)
    (hnum : m'.pool.num = m.pool.num)
    (h : onLists (listPool m) op = (report, ⟨m.pool.num, free, lists⟩)) : Refines m op report m' :=
  ⟨by rw [h], by rw [h, Represents.listPool_eq hr, hnum], Represents.wellFormed hr, hl⟩

/-- Allocation takes the first free slot, if there is one. -/
theorem refines_allocate (hw : WellFormed m) (hl : m.pool.spinlock = false) :
    Refines m .allocate (uvisorPoolTryAllocate m).1 (uvisorPoolTryAllocate m).2 := by
  cases hf : freeSlots m with
  | nil =>
    have hr : Represents m [] (queueSlots m) := hf ▸ hw
    rw [tryAllocate_nil hr hl]
    refine Refines.of_same hw hl ?_
    simp only [onLists, listPool, hf]
    rfl
  | cons s free =>
    have hr : Represents m (s :: free) (queueSlots m) := hf ▸ hw
    obtain ⟨hs, hr', hheld⟩ := tryAllocate_cons hr hl
    refine Refines.of_represents hr' (by simpa using hl) (tryAllocate_num m) ?_
    simp only [onLists, listPool, hf, hs]
    rfl

/-- A held slot is freed, and everything else is reported and left alone. -/
theorem refines_free (hw : WellFormed m) (hl : m.pool.spinlock = false) {slot : ℕ}
    (hslot : ∀ i, slot ∉ queueSlots m i) :
    Refines m (.free slot) (uvisorPoolTryFree m slot).1 (uvisorPoolTryFree m slot).2 := by
  by_cases hlt : m.pool.num ≤ slot
  · have hrefused : uvisorPoolTryFree m slot = (slotInvalid, m) := if_pos hlt
    rw [hrefused]
    exact Refines.of_same hw hl (if_pos hlt)
  · by_cases hf : slot ∈ freeSlots m
    · rw [tryFree_free hw hl hf]
      refine Refines.of_same hw hl ?_
      simp [onLists, listPool, hlt, hf]
    · obtain ⟨hs, hr⟩ := tryFree_held hw hl ⟨Nat.not_le.mp hlt, hf, hslot⟩
      refine Refines.of_represents hr (by simpa using hl) (tryFree_num m slot) ?_
      simp [onLists, listPool, hlt, hf, hs]

/-- A held slot is appended. -/
theorem refines_enqueue (hw : WellFormed m) (hl : m.pool.spinlock = false) (name : ι) {slot : ℕ}
    (hslot : (listPool m).Held slot) :
    Refines m (.enqueue name slot) slot (uvisorPoolQueueTryEnqueue m name slot).2 := by
  have hr := (tryEnqueue_held hw hl name hslot).2
  exact Refines.of_represents hr (by simpa using hl) (num_of_header name (by simp)) rfl

/-- A slot of the queue is taken out, and everything else is reported and left
alone. -/
theorem refines_dequeue (hw : WellFormed m) (hl : m.pool.spinlock = false) {name : ι} {slot : ℕ}
    (hslot : ∀ i, i ≠ name → slot ∉ queueSlots m i) :
    Refines m (.dequeue name slot) (uvisorPoolQueueTryDequeue m name slot).1
      (uvisorPoolQueueTryDequeue m name slot).2 := by
  by_cases hlt : m.pool.num ≤ slot
  · have hrefused : uvisorPoolQueueTryDequeue m name slot = (slotInvalid, m) := if_pos hlt
    rw [hrefused]
    exact Refines.of_same hw hl (if_pos hlt)
  · by_cases hq : slot ∈ queueSlots m name
    · obtain ⟨hs, hr, -⟩ := tryDequeue_mem hw hl hq
      refine Refines.of_represents hr (by simpa using hl) (num_of_header name (by simp)) ?_
      simp [onLists, listPool, hlt, hq, hs, ListPool.setQueue]
    · have hnone : ∀ i, slot ∉ queueSlots m i := by
        intro i
        by_cases hi : i = name
        · exact hi ▸ hq
        · exact hslot i hi
      rw [tryDequeue_unqueued hw hl name (Nat.not_le.mp hlt) hnone]
      refine Refines.of_same hw hl ?_
      by_cases hf : slot ∈ freeSlots m <;> simp [onLists, listPool, hlt, hq, hf]

/-- The first slot of the queue is taken out, if there is one. -/
theorem refines_dequeueFirst (hw : WellFormed m) (hl : m.pool.spinlock = false) (name : ι) :
    Refines m (.dequeueFirst name) (uvisorPoolQueueTryDequeueFirst m name).1
      (uvisorPoolQueueTryDequeueFirst m name).2 := by
  cases hq : queueSlots m name with
  | nil =>
    rw [tryDequeueFirst_nil hw hl hq]
    refine Refines.of_same hw hl ?_
    have hupdate : Function.update (queueSlots m) name [] = queueSlots m := by
      rw [← hq, Function.update_eq_self]
    simp [onLists, listPool, ListPool.setQueue, hq, hupdate]
  | cons s l =>
    obtain ⟨hs, hr, -⟩ := tryDequeueFirst_cons hw hl hq
    refine Refines.of_represents hr (by simpa using hl) (num_of_header name (by simp)) ?_
    simp [onLists, listPool, ListPool.setQueue, hq, hs]

/-- Every admissible operation on a well-formed pool whose lock is free comes
back, and it does what the list machine does. -/
theorem blocking_refines (hw : WellFormed m) (hl : m.pool.spinlock = false) {op : Operation ι}
    (hop : Admissible (listPool m) op) :
    ∃ report m', blocking m op = some (report, m') ∧ Refines m op report m' := by
  rw [← trying_of_free hl]
  cases op with
  | allocate => exact ⟨_, _, rfl, refines_allocate hw hl⟩
  | enqueue name slot =>
    have hstatus := (tryEnqueue_held hw hl name hop).1
    refine ⟨slot, _, ?_, refines_enqueue hw hl name hop⟩
    simp [trying, hstatus]
  | free slot => exact ⟨_, _, rfl, refines_free hw hl hop⟩
  | dequeue name slot => exact ⟨_, _, rfl, refines_dequeue hw hl hop⟩
  | dequeueFirst name => exact ⟨_, _, rfl, refines_dequeueFirst hw hl name⟩
  | findFirst name query =>
    exact ⟨_, m, tryFindFirst_spec hw hl name query, Refines.of_same hw hl rfl⟩

end Refinement

/-! ## A pool with two queues -/

/-- A pool of four slots that backs two empty queues. -/
def freshPool : PoolQueues Bool :=
  let pool : Pool := ⟨0, 0, 0, 0, 0, 0, true, fun _ => ⟨0, 0⟩⟩
  ⟨(uvisorPoolInit pool 0 4 4).2, fun _ => ⟨poolQueueMagic, slotInvalid, slotInvalid, 0⟩⟩

theorem freshPool_represents : Represents freshPool (List.range 4) (fun _ => []) :=
  poolInit_represents (by decide) (by decide) fun _ => ⟨rfl, rfl⟩

end Uvisor.PoolRefinement
