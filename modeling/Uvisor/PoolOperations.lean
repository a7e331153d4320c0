import Uvisor.PoolInvariant
import Mathlib.Logic.Function.Iterate

/-!
# What the pool-queue operations do to the described lists

The try operations are what the monitor calls, the blocking ones what the
boxes call; on a free lock both do the same. Every specification is about
the free list and the queue lists only. The header fields that validation
reads are never written by an operation.
-/

namespace Uvisor.PoolOperations

open PoolQueue LinkedList PoolInvariant

variable {ι : Type}

/-! ## Header fields -/

/-- The fields of a queue and of its pool that only initialization writes. -/
structure Header where
  /-- Magic of the queue. -/
  queueMagic : ℕ
  /-- Address of the pool. -/
  pool : ℕ
  /-- Magic of the pool. -/
  poolMagic : ℕ
  /-- Address of the data slots. -/
  array : ℕ
  /-- Distance between data slots. -/
  stride : ℕ
  /-- Number of slots. -/
  num : ℕ

/-- Header fields as seen through one queue. -/
def header (m : PoolQueues ι) (name : ι) : Header :=
  ⟨(m.queue name).magic, (m.queue name).pool, m.pool.magic, m.pool.array, m.pool.stride, m.pool.num⟩

@[simp] theorem header_setLock (m : PoolQueues ι) (acquired : Bool) :
    header (m.setLock acquired) = header m := rfl

@[simp] theorem header_unlock (m : PoolQueues ι) : header m.unlock = header m := rfl

theorem header_withTrylock {β : Type} {failure : β} {body : PoolQueues ι → β × PoolQueues ι}
    (hbody : ∀ m, header (body m).2 = header m) (m : PoolQueues ι) :
    header (withTrylock m failure body).2 = header m := by
  cases hl : m.pool.spinlock with
  | false => rw [withTrylock_of_free hl, header_unlock, hbody, header_setLock]
  | true => rw [withTrylock_of_held hl]

theorem header_withLock {β : Type} {body : PoolQueues ι → β × PoolQueues ι}
    (hbody : ∀ m, header (body m).2 = header m) {m : PoolQueues ι} {out : β × PoolQueues ι}
    (h : withLock m body = some out) : header out.2 = header m := by
  obtain ⟨lock, -, rfl⟩ := Option.map_eq_some_iff.mp h
  rw [header_unlock, hbody, header_setLock]

theorem header_allocateSection (m : PoolQueues ι) : header (allocateSection m).2 = header m := by
  funext i
  by_cases hf : m.pool.firstFree = slotInvalid <;>
    simp [header, allocateSection, poolAlloc, hf, Pool.setNext, Pool.setPrev]

theorem header_freeSection (slot : ℕ) (m : PoolQueues ι) :
    header (freeSection slot m).2 = header m := by
  funext i
  unfold freeSection
  split <;> rfl

/-- The bound is one of the header fields. -/
theorem num_of_header {m m' : PoolQueues ι} (i : ι) (h : header m' = header m) :
    m'.pool.num = m.pool.num :=
  congrArg Header.num (congrFun h i)

/-- Try operations leave the headers alone. -/
@[simp] theorem header_uvisorPoolTryAllocate (m : PoolQueues ι) :
    header (uvisorPoolTryAllocate m).2 = header m :=
  header_withTrylock header_allocateSection m

@[simp] theorem header_uvisorPoolTryFree (m : PoolQueues ι) (slot : ℕ) :
    header (uvisorPoolTryFree m slot).2 = header m := by
  unfold uvisorPoolTryFree
  split
  · rfl
  · exact header_withTrylock (header_freeSection slot) m

/-- So do the blocking ones. -/
theorem header_uvisorPoolAllocate {m : PoolQueues ι} {out : ℕ × PoolQueues ι}
    (h : uvisorPoolAllocate m = some out) : header out.2 = header m :=
  header_withLock header_allocateSection h

theorem header_uvisorPoolFree {m : PoolQueues ι} {slot : ℕ} {out : ℕ × PoolQueues ι}
    (h : uvisorPoolFree m slot = some out) : header out.2 = header m := by
  unfold uvisorPoolFree at h
  split at h
  · rw [← Option.some.inj h]
  · exact header_withLock (header_freeSection slot) h

@[simp] theorem uvisorPoolTryAllocate_spinlock (m : PoolQueues ι) :
    (uvisorPoolTryAllocate m).2.pool.spinlock = m.pool.spinlock := withTrylock_spinlock

@[simp] theorem uvisorPoolTryFree_spinlock (m : PoolQueues ι) (slot : ℕ) :
    (uvisorPoolTryFree m slot).2.pool.spinlock = m.pool.spinlock := by
  unfold uvisorPoolTryFree
  split
  · rfl
  · exact withTrylock_spinlock

/-- Writing an entry leaves the fixed fields of the pool. -/
theorem setNext_fixed (pool : Pool) (slot value : ℕ) :
    (pool.setNext slot value).magic = pool.magic ∧ (pool.setNext slot value).array = pool.array ∧
      (pool.setNext slot value).stride = pool.stride ∧ (pool.setNext slot value).num = pool.num :=
  ⟨rfl, rfl, rfl, rfl⟩

theorem setPrev_fixed (pool : Pool) (slot value : ℕ) :
    (pool.setPrev slot value).magic = pool.magic ∧ (pool.setPrev slot value).array = pool.array ∧
      (pool.setPrev slot value).stride = pool.stride ∧ (pool.setPrev slot value).num = pool.num :=
  ⟨rfl, rfl, rfl, rfl⟩

section Named

variable [DecidableEq ι]

/-- Replacing a queue header by one with the same fixed fields is invisible. -/
theorem header_update {m m' : PoolQueues ι} {name : ι} {q : Queue}
    (hpool : m'.pool.magic = m.pool.magic ∧ m'.pool.array = m.pool.array ∧
      m'.pool.stride = m.pool.stride ∧ m'.pool.num = m.pool.num)
    (hqueue : m'.queue = Function.update m.queue name q)
    (hq : q.magic = (m.queue name).magic ∧ q.pool = (m.queue name).pool) :
    header m' = header m := by
  funext i
  by_cases hi : i = name
  · subst hi
    simp [header, hpool, hqueue, hq]
  · simp [header, hpool, hqueue, hi]

@[simp] theorem header_enqueue (m : PoolQueues ι) (name : ι) (slot : ℕ) :
    header (enqueue m name slot) = header m := by
  unfold enqueue
  dsimp only
  split
  · exact header_update ⟨rfl, rfl, rfl, rfl⟩ rfl ⟨rfl, rfl⟩
  · exact header_update ⟨rfl, rfl, rfl, rfl⟩ rfl ⟨rfl, rfl⟩

@[simp] theorem header_dequeue (m : PoolQueues ι) (name : ι) (slot : ℕ) :
    header (dequeue m name slot) = header m := by
  unfold dequeue
  refine header_update ?_ rfl ?_
  · simp only [setNext_fixed, setPrev_fixed]
    split_ifs <;> simp only [setNext_fixed, setPrev_fixed, and_self]
  · dsimp only
    split_ifs <;> exact ⟨rfl, rfl⟩

@[simp] theorem header_tryDequeueFirst (m : PoolQueues ι) (name : ι) :
    header (tryDequeueFirst m name).2 = header m := by
  unfold tryDequeueFirst
  dsimp only
  split
  · exact header_dequeue m name _
  · rfl

theorem header_dequeueSection (name : ι) (slot : ℕ) (m : PoolQueues ι) :
    header (dequeueSection name slot m).2 = header m := by
  unfold dequeueSection
  dsimp only
  split
  · rfl
  · split
    · exact header_dequeue m name slot
    · rfl

@[simp] theorem header_uvisorPoolQueueTryEnqueue (m : PoolQueues ι) (name : ι) (slot : ℕ) :
    header (uvisorPoolQueueTryEnqueue m name slot).2 = header m := by
  unfold uvisorPoolQueueTryEnqueue
  split
  · exact header_withTrylock (fun m => header_enqueue m name slot) m
  · rfl

theorem header_uvisorPoolQueueEnqueue {m m' : PoolQueues ι} {name : ι} {slot : ℕ}
    (h : uvisorPoolQueueEnqueue m name slot = some m') : header m' = header m := by
  unfold uvisorPoolQueueEnqueue at h
  split at h
  · obtain ⟨out, hout, rfl⟩ := Option.map_eq_some_iff.mp h
    exact header_withLock (fun m => header_enqueue m name slot) hout
  · rw [← Option.some.inj h]

@[simp] theorem header_uvisorPoolQueueTryDequeueFirst (m : PoolQueues ι) (name : ι) :
    header (uvisorPoolQueueTryDequeueFirst m name).2 = header m :=
  header_withTrylock (fun m => header_tryDequeueFirst m name) m

@[simp] theorem header_uvisorPoolQueueTryDequeue (m : PoolQueues ι) (name : ι) (slot : ℕ) :
    header (uvisorPoolQueueTryDequeue m name slot).2 = header m := by
  unfold uvisorPoolQueueTryDequeue
  split
  · rfl
  · exact header_withTrylock (header_dequeueSection name slot) m

@[simp] theorem uvisorPoolQueueTryEnqueue_spinlock (m : PoolQueues ι) (name : ι) (slot : ℕ) :
    (uvisorPoolQueueTryEnqueue m name slot).2.pool.spinlock = m.pool.spinlock := by
  unfold uvisorPoolQueueTryEnqueue
  split
  · exact withTrylock_spinlock
  · rfl

@[simp] theorem uvisorPoolQueueTryDequeueFirst_spinlock (m : PoolQueues ι) (name : ι) :
    (uvisorPoolQueueTryDequeueFirst m name).2.pool.spinlock = m.pool.spinlock :=
  withTrylock_spinlock

@[simp] theorem uvisorPoolQueueTryDequeue_spinlock (m : PoolQueues ι) (name : ι) (slot : ℕ) :
    (uvisorPoolQueueTryDequeue m name slot).2.pool.spinlock = m.pool.spinlock := by
  unfold uvisorPoolQueueTryDequeue
  split
  · rfl
  · exact withTrylock_spinlock

end Named

/-- Updating the lists of the only queue. -/
theorem update_unit (l l' : List ℕ) : Function.update (fun _ : Unit => l) () l' = fun _ => l' := by
  funext u
  cases u
  simp

/-! ## Specifications on a free lock -/

section Specifications

variable {m : PoolQueues ι} {free : List ℕ} {lists : ι → List ℕ}

/-- No slot is available. -/
theorem tryAllocate_nil (h : Represents m [] lists) (hl : m.pool.spinlock = false) :
    uvisorPoolTryAllocate m = (slotInvalid, m) := by
  have hp := poolAlloc_nil (h.setLock true)
  rw [uvisorPoolTryAllocate, withTrylock_of_free hl, allocateSection, hp]
  exact congrArg (Prod.mk slotInvalid) (unlock_setLock hl true)

/-- The first free slot becomes held. -/
theorem tryAllocate_cons {s : ℕ} (h : Represents m (s :: free) lists)
    (hl : m.pool.spinlock = false) :
    (uvisorPoolTryAllocate m).1 = s ∧ Represents (uvisorPoolTryAllocate m).2 free lists ∧
      Held (uvisorPoolTryAllocate m).2 free lists s := by
  obtain ⟨hs, hr, hh⟩ := poolAlloc_cons (h.setLock true)
  rw [uvisorPoolTryAllocate, withTrylock_of_free hl]
  exact ⟨hs, hr.unlock, hh⟩

/-- A held slot becomes the first free one. -/
theorem tryFree_held {s : ℕ} (h : Represents m free lists) (hl : m.pool.spinlock = false)
    (hs : Held m free lists s) :
    (uvisorPoolTryFree m s).1 = s ∧ Represents (uvisorPoolTryFree m s).2 (s :: free) lists := by
  have hlt : ¬m.pool.num ≤ s := Nat.not_le.mpr hs.1
  have hstate : ¬(m.setLock true).pool.prev s = slotIsFree := by
    change ¬m.pool.prev s = slotIsFree
    rw [h.held_state s hs.1 hs.2.1 hs.2.2]
    decide
  have hr := poolFree_represents (h.setLock true) hs
  rw [uvisorPoolTryFree, if_neg hlt, withTrylock_of_free hl, freeSection, if_neg hstate]
  exact ⟨rfl, hr.unlock⟩

/-- A repeated free of a slot reports it and changes nothing. -/
theorem tryFree_free {s : ℕ} (h : Represents m free lists) (hl : m.pool.spinlock = false)
    (hs : s ∈ free) : uvisorPoolTryFree m s = (slotIsFree, m) := by
  have hlt : ¬m.pool.num ≤ s := Nat.not_le.mpr (h.free_lt s hs)
  have hstate : (m.setLock true).pool.prev s = slotIsFree := h.free_state s hs
  rw [uvisorPoolTryFree, if_neg hlt, withTrylock_of_free hl, freeSection, if_pos hstate]
  exact congrArg (Prod.mk slotIsFree) (unlock_setLock hl true)

/-- A walk changes nothing but the lock. -/
theorem findFirstFrom_pool {pool : Pool} {query : ℕ → Bool} {fuel slot : ℕ} {found : ℕ × Pool}
    (h : findFirstFrom pool query fuel slot = some found) :
    ∃ acquired, found.2 = pool.setLock acquired := by
  induction fuel generalizing slot with
  | zero => cases h
  | succ fuel ih =>
    rw [findFirstFrom] at h
    split at h
    · split at h
      · exact ⟨_, congrArg Prod.snd (Option.some.inj h).symm⟩
      · exact ih h
    · exact ⟨pool.spinlock, congrArg Prod.snd (Option.some.inj h).symm⟩

theorem header_uvisorPoolQueueTryFindFirst {q : ι} {query : ℕ → Bool}
    {found : ℕ × PoolQueues ι} (h : uvisorPoolQueueTryFindFirst m q query = some found) :
    header found.2 = header m := by
  unfold uvisorPoolQueueTryFindFirst at h
  dsimp only at h
  split at h
  · obtain rfl := Option.some.inj h
    rw [header_setLock]
  · obtain ⟨walked, hwalked, rfl⟩ := Option.map_eq_some_iff.mp h
    obtain ⟨last, hlast, rfl⟩ := Option.map_eq_some_iff.mp hwalked
    obtain ⟨acquired, hpool⟩ := findFirstFrom_pool hlast
    simp only [header_unlock, hpool]
    rfl

/-- The walk over a threaded list ends with its first match. -/
theorem findFirstFrom_linked {pool : Pool} {before : ℕ} {l : List ℕ} (query : ℕ → Bool)
    {fuel : ℕ} (hfuel : l.length < fuel) (hl : Linked pool.next pool.prev before l slotInvalid)
    (hne : ∀ s ∈ l, s ≠ slotInvalid) :
    findFirstFrom pool query fuel (l.headD slotInvalid) =
      some ((l.find? query).getD slotInvalid,
        if (l.find? query).isSome then pool.setLock false else pool) := by
  induction l generalizing before fuel with
  | nil =>
    obtain ⟨fuel, rfl⟩ := Nat.exists_eq_succ_of_ne_zero (by omega : fuel ≠ 0)
    simp [findFirstFrom]
  | cons s l ih =>
    obtain ⟨fuel, rfl⟩ := Nat.exists_eq_succ_of_ne_zero (by omega : fuel ≠ 0)
    rw [List.length_cons] at hfuel
    have hs : s ≠ slotInvalid := hne s (by simp)
    cases hq : query s with
    | true => simp [findFirstFrom, hs, hq, uvisorSpinUnlock]
    | false =>
      have hrec := ih (by omega : l.length < fuel) hl.2.2 (fun t ht => hne t (by simp [ht]))
      rw [← hl.2.1] at hrec
      simpa [findFirstFrom, hs, hq] using hrec

/-- Finding returns the first match in queue order and leaves the pool as it
was, both releases of the lock included. -/
theorem tryFindFirst_spec (h : Represents m free lists) (hl : m.pool.spinlock = false) (q : ι)
    (query : ℕ → Bool) :
    uvisorPoolQueueTryFindFirst m q query =
      some (((lists q).find? query).getD slotInvalid, m) := by
  have hlen := h.length_le q
  have hnum := h.num_lt
  have hw := findFirstFrom_linked query (by simp only [poolMaxValid] at hnum; omega :
    (lists q).length < 257) ((h.setLock true).linked q)
    (fun s hs => (h.lt_reserved (h.lists_lt q s hs)).1)
  rw [← (h.setLock true).head q] at hw
  have hu := unlock_setLock hl true
  simp only [uvisorPoolQueueTryFindFirst, uvisorSpinTrylock, hl, if_true, Bool.true_eq_false,
    if_false, findFirst, hw, Option.map_some]
  congr 2
  split <;> exact hu

/-- Slots met on a walk along the links. -/
def slotsFrom (pool : Pool) : ℕ → ℕ → List ℕ
  | 0, _ => []
  | fuel+1, slot =>
    if slot ≠ slotInvalid then slot :: slotsFrom pool fuel (pool.next slot) else []

/-- The slots of a queue in order, as a walk from its head finds them. -/
def queueSlots (m : PoolQueues ι) (name : ι) : List ℕ := slotsFrom m.pool 257 (m.queue name).head

/-- The walk over a chain finds its nodes. -/
theorem slotsFrom_chained {pool : Pool} {l : List ℕ} {fuel : ℕ} (hfuel : l.length < fuel)
    (hl : Chained pool.next l slotInvalid) (hne : ∀ s ∈ l, s ≠ slotInvalid) :
    slotsFrom pool fuel (l.headD slotInvalid) = l := by
  induction l generalizing fuel with
  | nil =>
    obtain ⟨fuel, rfl⟩ := Nat.exists_eq_succ_of_ne_zero (by omega : fuel ≠ 0)
    simp [slotsFrom]
  | cons s l ih =>
    obtain ⟨fuel, rfl⟩ := Nat.exists_eq_succ_of_ne_zero (by omega : fuel ≠ 0)
    rw [List.length_cons] at hfuel
    have hs : s ≠ slotInvalid := hne s (by simp)
    have hrec := ih (by omega : l.length < fuel) hl.2 (fun t ht => hne t (by simp [ht]))
    rw [← hl.1] at hrec
    rw [List.headD_cons, slotsFrom, if_pos hs, hrec]

/-- The walk over a well-formed queue finds the described list. -/
theorem Represents.queueSlots_eq (h : Represents m free lists) (q : ι) :
    queueSlots m q = lists q := by
  have hlen := h.length_le q
  have hnum := h.num_lt
  unfold queueSlots
  rw [h.head q]
  refine slotsFrom_chained ?_ (h.linked q).chained
    fun s hs => (h.lt_reserved (h.lists_lt q s hs)).1
  simp only [poolMaxValid] at hnum
  omega

variable [DecidableEq ι]

/-- A held slot is appended to a queue. -/
theorem tryEnqueue_held {s : ℕ} (h : Represents m free lists) (hl : m.pool.spinlock = false)
    (q : ι) (hs : Held m free lists s) :
    (uvisorPoolQueueTryEnqueue m q s).1 = 0 ∧
      Represents (uvisorPoolQueueTryEnqueue m q s).2 free
        (Function.update lists q (lists q ++ [s])) := by
  have hne : s ≠ slotInvalid := (h.lt_reserved hs.1).1
  have hr := enqueue_represents (h.setLock true) q hs
  rw [uvisorPoolQueueTryEnqueue, if_pos hne, withTrylock_of_free hl]
  exact ⟨rfl, hr.unlock⟩

/-- An empty queue has no first slot. -/
theorem tryDequeueFirst_nil {q : ι} (h : Represents m free lists) (hl : m.pool.spinlock = false)
    (hq : lists q = []) : uvisorPoolQueueTryDequeueFirst m q = (slotInvalid, m) := by
  have hhead := ((h.setLock true).head_eq_invalid_iff q).mpr hq
  rw [uvisorPoolQueueTryDequeueFirst, withTrylock_of_free hl]
  simp only [tryDequeueFirst, hhead, ne_eq, not_true_eq_false, if_false]
  exact congrArg (Prod.mk slotInvalid) (unlock_setLock hl true)

/-- A slot that left a queue and entered no other one is held. -/
theorem held_of_erase {m' : PoolQueues ι} {q : ι} {s : ℕ} (h : Represents m free lists)
    (hnum : m'.pool.num = m.pool.num) (hs : s ∈ lists q) :
    Held m' free (Function.update lists q ((lists q).erase s)) s := by
  refine ⟨hnum ▸ h.lists_lt q s hs, h.free_disjoint q s hs, fun i => ?_⟩
  by_cases hi : i = q
  · subst hi
    rw [Function.update_self]
    exact (h.nodup i).not_mem_erase
  · rw [Function.update_of_ne hi]
    exact fun hm => h.disjoint i q hi s hm hs

/-- The first slot of a queue becomes held. -/
theorem tryDequeueFirst_cons {q : ι} {s : ℕ} {l : List ℕ} (h : Represents m free lists)
    (hl : m.pool.spinlock = false) (hq : lists q = s :: l) :
    (uvisorPoolQueueTryDequeueFirst m q).1 = s ∧
      Represents (uvisorPoolQueueTryDequeueFirst m q).2 free (Function.update lists q l) ∧
      Held (uvisorPoolQueueTryDequeueFirst m q).2 free (Function.update lists q l) s := by
  have hmem : s ∈ lists q := by simp [hq]
  have hhead : ((m.setLock true).queue q).head = s := by rw [(h.setLock true).head q, hq]; rfl
  have hne : s ≠ slotInvalid := (h.lt_reserved (h.lists_lt q s hmem)).1
  have herase : (lists q).erase s = l := by rw [hq, List.erase_cons_head]
  have hr := dequeue_represents (h.setLock true) hmem
  have hnum : (dequeue (m.setLock true) q s).pool.num = m.pool.num :=
    congrArg Header.num (congrFun (header_dequeue (m.setLock true) q s) q)
  have hheld : Held (dequeue (m.setLock true) q s).unlock free
      (Function.update lists q ((lists q).erase s)) s := held_of_erase h hnum hmem
  rw [herase] at hr hheld
  rw [uvisorPoolQueueTryDequeueFirst, withTrylock_of_free hl]
  simp only [tryDequeueFirst, hhead, hne, ne_eq, not_false_eq_true, if_true]
  exact ⟨trivial, hr.unlock, hheld⟩

/-- A queued slot is taken out of its queue. -/
theorem tryDequeue_mem {q : ι} {s : ℕ} (h : Represents m free lists)
    (hl : m.pool.spinlock = false) (hs : s ∈ lists q) :
    (uvisorPoolQueueTryDequeue m q s).1 = s ∧
      Represents (uvisorPoolQueueTryDequeue m q s).2 free
        (Function.update lists q ((lists q).erase s)) ∧
      Held (uvisorPoolQueueTryDequeue m q s).2 free
        (Function.update lists q ((lists q).erase s)) s := by
  have hlt : ¬m.pool.num ≤ s := Nat.not_le.mpr (h.lists_lt q s hs)
  have hstate : ¬((m.setLock true).pool.prev s = slotIsFree ∨
      (m.setLock true).pool.prev s = slotIsDequeued) := by
    have hq := (h.setLock true).queued_state hs
    exact fun hh => hh.elim hq.1 hq.2
  have hhead : ((m.setLock true).queue q).head ≠ slotInvalid := by
    rw [ne_eq, (h.setLock true).head_eq_invalid_iff q]
    exact List.ne_nil_of_mem hs
  have hnum : (dequeue (m.setLock true) q s).pool.num = m.pool.num :=
    congrArg Header.num (congrFun (header_dequeue (m.setLock true) q s) q)
  rw [uvisorPoolQueueTryDequeue, if_neg hlt, withTrylock_of_free hl]
  simp only [dequeueSection, if_neg hstate, if_pos hhead]
  exact ⟨trivial, (dequeue_represents (h.setLock true) hs).unlock, held_of_erase h hnum hs⟩

/-- Allocate a slot and put it at the back of a queue. -/
def queueFresh (q : ι) (m : PoolQueues ι) : PoolQueues ι :=
  let allocated := uvisorPoolTryAllocate m
  (uvisorPoolQueueTryEnqueue allocated.2 q allocated.1).2

theorem queueFresh_spec {s : ℕ} (h : Represents m (s :: free) lists)
    (hl : m.pool.spinlock = false) (q : ι) :
    Represents (queueFresh q m) free (Function.update lists q (lists q ++ [s])) ∧
      (queueFresh q m).pool.spinlock = false := by
  obtain ⟨hs, hr, hh⟩ := tryAllocate_cons h hl
  have hlock : (uvisorPoolTryAllocate m).2.pool.spinlock = false := by
    rw [uvisorPoolTryAllocate_spinlock, hl]
  rw [queueFresh, hs]
  refine ⟨(tryEnqueue_held hr hlock q hh).2, ?_⟩
  rw [uvisorPoolQueueTryEnqueue_spinlock, hlock]

/-- Filling a queue moves the front of the free list to the queue, in order. -/
theorem queueFresh_iterate (l free : List ℕ) (h : Represents m (l ++ free) lists)
    (hl : m.pool.spinlock = false) (q : ι) :
    Represents ((queueFresh q)^[l.length] m) free (Function.update lists q (lists q ++ l)) ∧
      ((queueFresh q)^[l.length] m).pool.spinlock = false := by
  induction l generalizing m lists with
  | nil => simpa using ⟨h, hl⟩
  | cons s l ih =>
    obtain ⟨hr, hlock⟩ := queueFresh_spec h hl q
    have hrest := ih hr hlock
    rw [Function.update_self, Function.update_idem, List.append_assoc] at hrest
    exact hrest

/-- A repeated dequeue of a held or free slot reports its state and changes
nothing. -/
theorem tryDequeue_unqueued {s : ℕ} (h : Represents m free lists)
    (hl : m.pool.spinlock = false) (q : ι) (hlt : s < m.pool.num) (hs : ∀ i, s ∉ lists i) :
    uvisorPoolQueueTryDequeue m q s = (if s ∈ free then slotIsFree else slotIsDequeued, m) := by
  have hprev : (m.setLock true).pool.prev s = if s ∈ free then slotIsFree else slotIsDequeued := by
    split
    · exact h.free_state s ‹_›
    · exact h.held_state s hlt ‹_› hs
  have hstate : (m.setLock true).pool.prev s = slotIsFree ∨
      (m.setLock true).pool.prev s = slotIsDequeued := by
    rw [hprev]
    split
    · exact Or.inl rfl
    · exact Or.inr rfl
  rw [uvisorPoolQueueTryDequeue, if_neg (Nat.not_le.mpr hlt), withTrylock_of_free hl]
  simp only [dequeueSection, if_pos hstate]
  rw [hprev, unlock_setLock hl true]

/-- The state reported then is not the number of a slot. -/
theorem tryDequeue_not_queued {s : ℕ} (h : Represents m free lists)
    (hl : m.pool.spinlock = false) (q : ι) (hlt : s < m.pool.num) (hs : ∀ i, s ∉ lists i) :
    (uvisorPoolQueueTryDequeue m q s).2 = m ∧
      m.pool.num ≤ (uvisorPoolQueueTryDequeue m q s).1 := by
  rw [tryDequeue_unqueued h hl q hlt hs]
  refine ⟨rfl, ?_⟩
  have hn := h.num_lt
  simp only [poolMaxValid, slotIsFree, slotIsDequeued] at hn ⊢
  split <;> omega

end Specifications

/-! ## Blocking operations -/

section Blocking

variable {m : PoolQueues ι}

theorem allocate_of_free (hl : m.pool.spinlock = false) :
    uvisorPoolAllocate m = some (uvisorPoolTryAllocate m) := withLock_of_free hl

/-- What a blocking allocation returns. -/
theorem allocate_eq_some {out : ℕ × PoolQueues ι} (h : uvisorPoolAllocate m = some out) :
    m.pool.spinlock = false ∧ out = uvisorPoolTryAllocate m := by
  cases hl : m.pool.spinlock with
  | true => simp [uvisorPoolAllocate, withLock, uvisorSpinLock, uvisorSpinTrylock, hl] at h
  | false =>
    rw [allocate_of_free hl] at h
    exact ⟨rfl, (Option.some.inj h).symm⟩

theorem free_of_free (hl : m.pool.spinlock = false) (slot : ℕ) :
    uvisorPoolFree m slot = some (uvisorPoolTryFree m slot) := by
  unfold uvisorPoolFree uvisorPoolTryFree
  split
  · rfl
  · exact withLock_of_free hl

theorem findFirst_of_free (hl : m.pool.spinlock = false) (q : ι) (query : ℕ → Bool) :
    uvisorPoolQueueFindFirst m q query = uvisorPoolQueueTryFindFirst m q query := by
  simp [uvisorPoolQueueFindFirst, uvisorPoolQueueTryFindFirst, uvisorSpinLock, uvisorSpinTrylock, hl]

variable [DecidableEq ι]

theorem enqueue_of_free (hl : m.pool.spinlock = false) (q : ι) (slot : ℕ) :
    uvisorPoolQueueEnqueue m q slot = some (uvisorPoolQueueTryEnqueue m q slot).2 := by
  unfold uvisorPoolQueueEnqueue uvisorPoolQueueTryEnqueue
  split
  · rw [withTrylock_of_free hl]
    simp [withLock, uvisorSpinLock, uvisorSpinTrylock, hl]
  · rfl

/-- What a blocking enqueue returns for a slot. -/
theorem enqueue_eq_some {m' : PoolQueues ι} {q : ι} {slot : ℕ} (hslot : slot ≠ slotInvalid)
    (h : uvisorPoolQueueEnqueue m q slot = some m') :
    m.pool.spinlock = false ∧ m' = (uvisorPoolQueueTryEnqueue m q slot).2 := by
  cases hl : m.pool.spinlock with
  | true =>
    simp [uvisorPoolQueueEnqueue, withLock, uvisorSpinLock, uvisorSpinTrylock, hl, hslot] at h
  | false =>
    rw [enqueue_of_free hl] at h
    exact ⟨rfl, (Option.some.inj h).symm⟩

theorem dequeue_of_free (hl : m.pool.spinlock = false) (q : ι) (slot : ℕ) :
    uvisorPoolQueueDequeue m q slot = some (uvisorPoolQueueTryDequeue m q slot) := by
  unfold uvisorPoolQueueDequeue uvisorPoolQueueTryDequeue
  split
  · rfl
  · exact withLock_of_free hl

end Blocking

/-! ## Initialization -/

section Initialization

theorem initEntries_apply (array : ℕ → Entry) (n s : ℕ) :
    initEntries array n s = if s < n then ⟨s+1, slotIsFree⟩ else array s := by
  induction n with
  | zero => rfl
  | succ n ih =>
    by_cases hs : s = n
    · subst hs
      simp [initEntries]
    · simp only [initEntries, Function.update_of_ne hs, ih]
      exact if_congr (by omega) rfl rfl

/-- Consecutive numbers that each point to the next one form a chain. -/
theorem chained_range' {next : ℕ → ℕ} {after : ℕ} (a k : ℕ)
    (hnext : ∀ i, a ≤ i → i+1 < a+k → next i = i+1) (hlast : 0 < k → next (a+k-1) = after) :
    Chained next (List.range' a k) after := by
  induction k generalizing a with
  | zero => trivial
  | succ k ih =>
    rw [List.range'_succ]
    refine ⟨?_, ih (a+1) (fun i hi hk => hnext i (by omega) (by omega)) (fun hk => ?_)⟩
    · cases k with
      | zero => simpa using hlast (by omega)
      | succ k =>
        rw [List.range'_succ]
        exact hnext a (by omega) (by omega)
    · have hl := hlast (by omega)
      rwa [show a+(k+1)-1 = a+1+k-1 by omega] at hl

/-- A pool whose entries all point to the next one, the last one excepted, is
all free. -/
theorem represents_range {m : PoolQueues ι} (hnum : m.pool.num < poolMaxValid)
    (hfirst : m.pool.firstFree = if m.pool.num = 0 then slotInvalid else 0)
    (hcount : m.pool.numAllocated = 0)
    (hnext : ∀ s < m.pool.num,
      m.pool.next s = if s+1 = m.pool.num then slotInvalid else s+1)
    (hprev : ∀ s < m.pool.num, m.pool.prev s = slotIsFree)
    (hqueue : ∀ i, (m.queue i).head = slotInvalid ∧ (m.queue i).tail = slotInvalid) :
    Represents m (List.range m.pool.num) (fun _ => []) := by
  refine ⟨hnum, ?_, ?_, ?_, ?_, List.nodup_range, fun i => (hqueue i).1, fun i => (hqueue i).2,
    fun _ => trivial, ?_, ?_, ?_, ?_, ?_, ?_⟩
  · rw [hfirst]
    cases m.pool.num with
    | zero => rfl
    | succ n =>
      rw [List.range_eq_range', List.range'_succ]
      rfl
  · rw [List.range_eq_range']
    refine chained_range' 0 m.pool.num (fun i _ hi => ?_) (fun _ => ?_)
    · rw [hnext i (by omega), if_neg (by omega)]
    · rw [hnext (0+m.pool.num-1) (by omega), if_pos (by omega)]
  · intro s hs
    exact hprev s (List.mem_range.mp hs)
  · intro s hs
    exact List.mem_range.mp hs
  · intro i s hs
    simp at hs
  · intro i
    exact List.nodup_nil
  · intro i j _ s hs
    simp at hs
  · intro i s hs
    simp at hs
  · intro s hs hf
    exact absurd (List.mem_range.mpr hs) hf
  · rw [hcount, List.length_range, Nat.zero_add]

/-- A freshly initialized pool is all free, with any empty queues on it. -/
theorem poolInit_represents {pool : Pool} {queue : ι → Queue} {array stride num : ℕ}
    (hpos : 0 < num) (hnum : num < poolMaxValid)
    (hqueue : ∀ i, (queue i).head = slotInvalid ∧ (queue i).tail = slotInvalid) :
    Represents ⟨(uvisorPoolInit pool array stride num).2, queue⟩ (List.range num)
      (fun _ => []) := by
  have hinit : (uvisorPoolInit pool array stride num).2 =
      ((⟨poolMagic, array, stride, num, 0, 0, pool.spinlock,
        initEntries pool.managementArray num⟩ : Pool).setNext (num-1) slotInvalid).setLock false := by
    simp [uvisorPoolInit, Nat.not_le.mpr hnum, Nat.ne_of_gt hpos]
  rw [hinit]
  refine represents_range hnum ?_ rfl (fun s hs => ?_) (fun s hs => ?_) hqueue
  · exact (if_neg (Nat.ne_of_gt hpos)).symm
  · have hs : s < num := hs
    rw [setLock_next, setNext_next]
    simp only [Pool.next, initEntries_apply, hs, if_true]
    exact if_congr (by simp only [setLock_num, setNext_num]; omega) rfl rfl
  · have hs : s < num := hs
    rw [setLock_prev, setNext_prev]
    simp only [Pool.prev, initEntries_apply, hs, if_true]

end Initialization

end Uvisor.PoolOperations
