import Mathlib.Data.Finset.Basic
import Uvisor.PoolRefinement

/-!
# Pools over any sequence of operations

A run starts from an initialized pool with empty queues. Beside the pool it
keeps the slots that the operations have handed out and not taken back, as
their callers learn from the reports. Every slot is then free, in one queue
or held, and the links and state bytes say which.
-/

namespace Uvisor.PoolHistory

open PoolQueue LinkedList PoolInvariant PoolOperations PoolRefinement Execution
open PoolLocking (Operation)

section Runs

variable {ι : Type} [DecidableEq ι]

/-! ## Runs -/

/-- A pool and the slots held by its users. -/
structure State (ι : Type) where
  /-- The pool and its queues. -/
  pools : PoolQueues ι
  /-- Slots handed out and not given back. -/
  held : Finset ℕ

/-- A call of one of the two forms of an operation. -/
structure Call (ι : Type) where
  /-- The operation. -/
  op : Operation ι
  /-- Whether the blocking form is called. -/
  isBlocking : Bool

/-- What a caller holds after a report. A report beyond the slots of the pool
is a refusal. -/
def heldAfter (num : ℕ) (held : Finset ℕ) (op : Operation ι) (report : ℕ) : Finset ℕ :=
  match op with
  | .allocate => if report < num then insert report held else held
  | .enqueue _ slot => held.erase slot
  | .free slot => if report < num then held.erase slot else held
  | .dequeue _ _ => if report < num then insert report held else held
  | .dequeueFirst _ => if report < num then insert report held else held
  | .findFirst _ _ => held

/-- One call; there is no result when it never returns. -/
def step (s : State ι) (call : Call ι) : Option (State ι) :=
  let out := if call.isBlocking then blocking s.pools call.op else trying s.pools call.op
  out.map fun out => ⟨out.2, heldAfter s.pools.pool.num s.held call.op out.1⟩

/-- Held slots are enqueued; a slot of the queue is dequeued, and held or free
slots once more; held slots are freed, and free ones once more. -/
def Permitted (s : State ι) (call : Call ι) : Prop :=
  match call.op with
  | .enqueue _ slot => slot ∈ s.held
  | .free slot => slot ∈ s.held ∨ slot ∈ freeSlots s.pools
  | .dequeue name slot =>
    slot ∈ queueSlots s.pools name ∨ slot ∈ s.held ∨ slot ∈ freeSlots s.pools
  | _ => True

instance (s : State ι) (call : Call ι) : Decidable (Permitted s call) := by
  unfold Permitted
  cases call.op <;> dsimp only <;> infer_instance

/-- The state after initialization, with empty queues and nothing handed out. -/
def Initialized (num : ℕ) (s : State ι) : Prop :=
  (∃ pool array stride, s.pools.pool = (uvisorPoolInit pool array stride num).2) ∧
    (∀ i, (s.pools.queue i).head = slotInvalid ∧ (s.pools.queue i).tail = slotInvalid) ∧
    s.held = ∅

/-! ## What holds in every state -/

/-- The slots of the pool fall apart into free, queued and held ones, and the
management array says so. -/
structure Partitioned (num : ℕ) (s : State ι) : Prop where
  /-- The bound is the one given at initialization. -/
  num_eq : s.pools.pool.num = num
  /-- Every slot is free, queued or held. -/
  cover : ∀ slot, slot < num ↔
    slot ∈ freeSlots s.pools ∨ (∃ i, slot ∈ queueSlots s.pools i) ∨ slot ∈ s.held
  /-- No free slot is queued. -/
  free_queued : ∀ slot ∈ freeSlots s.pools, ∀ i, slot ∉ queueSlots s.pools i
  /-- No free slot is held. -/
  free_held : ∀ slot ∈ freeSlots s.pools, slot ∉ s.held
  /-- No queued slot is held. -/
  queued_held : ∀ i, ∀ slot ∈ queueSlots s.pools i, slot ∉ s.held
  /-- No slot is in two queues. -/
  queued_once : ∀ i j, i ≠ j → ∀ slot ∈ queueSlots s.pools i, slot ∉ queueSlots s.pools j
  /-- The free list has no repetition, so it has an end. -/
  free_nodup : (freeSlots s.pools).Nodup
  /-- The free list starts at its head field and follows the next fields. -/
  free_linked : s.pools.pool.firstFree = (freeSlots s.pools).headD slotInvalid ∧
    Chained s.pools.pool.next (freeSlots s.pools) slotInvalid
  /-- No queue has a repetition, so every queue has an end. -/
  queue_nodup : ∀ i, (queueSlots s.pools i).Nodup
  /-- Every queue starts and ends at its header fields and is linked in both
  directions. -/
  queue_linked : ∀ i,
    (s.pools.queue i).head = (queueSlots s.pools i).headD slotInvalid ∧
    (s.pools.queue i).tail = (queueSlots s.pools i).getLastD slotInvalid ∧
    Linked s.pools.pool.next s.pools.pool.prev slotInvalid (queueSlots s.pools i) slotInvalid
  /-- The overlaid byte of a queued slot is never taken for a state. -/
  queued_state : ∀ i, ∀ slot ∈ queueSlots s.pools i,
    s.pools.pool.prev slot ≠ slotIsFree ∧ s.pools.pool.prev slot ≠ slotIsDequeued
  /-- Freeing a free slot once more changes nothing. -/
  free_again : ∀ slot ∈ freeSlots s.pools, ∀ isBlocking,
    step s ⟨.free slot, isBlocking⟩ = some s
  /-- Dequeuing a free or held slot once more changes nothing. -/
  dequeue_again : ∀ slot, slot ∈ freeSlots s.pools ∨ slot ∈ s.held → ∀ name isBlocking,
    step s ⟨.dequeue name slot, isBlocking⟩ = some s
  /-- The counter is the bound without the free slots. -/
  allocated : s.pools.pool.numAllocated = num-(freeSlots s.pools).length

/-- The pool is well formed and unlocked, and what is held is what is neither
free nor queued. -/
structure Inv (num : ℕ) (s : State ι) : Prop where
  /-- The pool is well formed. -/
  wellFormed : WellFormed s.pools
  /-- The lock is free. -/
  spinlock : s.pools.pool.spinlock = false
  /-- The bound. -/
  num_eq : s.pools.pool.num = num
  /-- The held slots. -/
  held : ∀ slot, slot ∈ s.held ↔ (listPool s.pools).Held slot

variable {num : ℕ} {s : State ι}

/-- A call in either form is the blocking operation. -/
theorem step_eq (hl : s.pools.pool.spinlock = false) (call : Call ι) :
    step s call = (blocking s.pools call.op).map fun out =>
      ⟨out.2, heldAfter s.pools.pool.num s.held call.op out.1⟩ := by
  unfold step
  rw [trying_of_free hl, ite_self]

omit [DecidableEq ι] in
/-- An initialized pool is all free. -/
theorem inv_initialized (hpos : 0 < num) (hnum : num < poolMaxValid) (h : Initialized num s) :
    Inv num s := by
  obtain ⟨⟨pool, array, stride, hpool⟩, hqueue, hheld⟩ := h
  have hr : Represents s.pools (List.range num) (fun _ => []) := by
    have hr : Represents ⟨(uvisorPoolInit pool array stride num).2, s.pools.queue⟩
        (List.range num) (fun _ => []) := poolInit_represents hpos hnum hqueue
    rwa [← hpool] at hr
  have hbound : s.pools.pool.num = num := by
    rw [hpool]
    simp [uvisorPoolInit, Nat.not_le.mpr hnum, Nat.ne_of_gt hpos]
  refine ⟨Represents.wellFormed hr, ?_, hbound, fun slot => ?_⟩
  · rw [hpool]
    simp [uvisorPoolInit, Nat.not_le.mpr hnum, Nat.ne_of_gt hpos]
  · rw [hheld, Represents.listPool_eq hr, hbound]
    simp [ListPool.Held]

omit [DecidableEq ι] in
/-- A permitted call is admissible for the lists. -/
theorem Inv.admissible (h : Inv num s) {call : Call ι} (hc : Permitted s call) :
    Admissible (listPool s.pools) call.op := by
  obtain ⟨op, isBlocking⟩ := call
  cases op with
  | allocate => trivial
  | enqueue name slot => exact (h.held slot).mp hc
  | free slot =>
    intro i hq
    rcases hc with hheld | hfree
    · exact ((h.held slot).mp hheld).2.2 i hq
    · exact h.wellFormed.free_disjoint i slot hq hfree
  | dequeue name slot =>
    intro i hi hq
    rcases hc with hmem | hheld | hfree
    · exact h.wellFormed.disjoint i name hi slot hq hmem
    · exact ((h.held slot).mp hheld).2.2 i hq
    · exact h.wellFormed.free_disjoint i slot hq hfree
  | dequeueFirst name => trivial
  | findFirst name query => trivial

omit [DecidableEq ι] in
/-- A reserved number is not below the bound. -/
theorem Inv.not_lt (h : Inv num s) : ¬slotInvalid < s.pools.pool.num ∧
    ¬slotIsFree < s.pools.pool.num ∧ ¬slotIsDequeued < s.pools.pool.num := by
  have hn := h.wellFormed.num_lt
  simp only [poolMaxValid, slotInvalid, slotIsFree, slotIsDequeued] at hn ⊢
  omega

/-- A slot of the queue that goes to the caller. -/
theorem Inv.held_dequeued (h : Inv num s) {name : ι} {slot : ℕ}
    (hq : slot ∈ queueSlots s.pools name) (t : ℕ) :
    t ∈ insert slot s.held ↔
      ((listPool s.pools).setQueue name ((queueSlots s.pools name).erase slot)).Held t := by
  have hw := h.wellFormed
  have hnd := hw.nodup name
  rw [Finset.mem_insert, h.held t]
  by_cases ht : t = slot
  · subst ht
    refine iff_of_true (.inl rfl) ⟨hw.lists_lt name t hq, hw.free_disjoint name t hq, fun i => ?_⟩
    by_cases hi : i = name
    · subst hi
      simpa [ListPool.setQueue] using hnd.not_mem_erase
    · simpa [ListPool.setQueue, hi, listPool] using hw.disjoint name i (Ne.symm hi) t hq
  · have hmem : ∀ i, t ∈ ((listPool s.pools).setQueue name
        ((queueSlots s.pools name).erase slot)).queue i ↔ t ∈ queueSlots s.pools i := by
      intro i
      by_cases hi : i = name
      · subst hi
        simp [ListPool.setQueue, List.mem_erase_of_ne ht]
      · simp [ListPool.setQueue, hi, listPool]
    simp only [ListPool.Held, hmem, ht, false_or]
    rfl

/-- The callers hold what the lists say they hold. -/
theorem Inv.held_after (h : Inv num s) {op : Operation ι} (hop : Admissible (listPool s.pools) op)
    (t : ℕ) : t ∈ heldAfter s.pools.pool.num s.held op (onLists (listPool s.pools) op).1 ↔
      (onLists (listPool s.pools) op).2.Held t := by
  have hw := h.wellFormed
  obtain ⟨hinvalid, hisFree, hisDequeued⟩ := h.not_lt
  cases op with
  | allocate =>
    cases hf : freeSlots s.pools with
    | nil => simp [heldAfter, onLists, listPool, hf, hinvalid, h.held t, ListPool.Held]
    | cons slot free =>
      have hlt : slot < s.pools.pool.num := hw.free_lt slot (by simp [hf])
      have hnd : slot ∉ free := (List.nodup_cons.mp (hf ▸ hw.free_nodup)).1
      have hqueued : ∀ i, slot ∉ queueSlots s.pools i := fun i hq =>
        hw.free_disjoint i slot hq (by simp [hf])
      simp only [heldAfter, onLists, listPool, hf, List.headD_cons, hlt, if_true,
        Finset.mem_insert, h.held t, ListPool.Held, List.tail_cons, List.mem_cons]
      by_cases ht : t = slot
      · subst ht
        simp [hlt, hnd, hqueued]
      · simp [ht]
  | enqueue name slot =>
    obtain ⟨hlt, hfree, hqueued⟩ := hop
    simp only [heldAfter, onLists, Finset.mem_erase, h.held t]
    have hmem : (∀ i, t ∉ ((listPool s.pools).setQueue name
        ((listPool s.pools).queue name ++ [slot])).queue i) ↔
        t ≠ slot ∧ ∀ i, t ∉ (listPool s.pools).queue i := by
      constructor
      · intro ha
        have hname := ha name
        simp only [ListPool.setQueue, Function.update_self, List.mem_append,
          List.mem_singleton, not_or] at hname
        refine ⟨hname.2, fun i => ?_⟩
        by_cases hi : i = name
        · exact hi ▸ hname.1
        · simpa [ListPool.setQueue, hi] using ha i
      · rintro ⟨hne, ha⟩ i
        by_cases hi : i = name
        · subst hi
          simpa [ListPool.setQueue, hne] using ha i
        · simpa [ListPool.setQueue, hi] using ha i
    unfold ListPool.Held
    rw [hmem]
    constructor
    · rintro ⟨hne, hl, hf, hq⟩
      exact ⟨hl, hf, hne, hq⟩
    · rintro ⟨hl, hf, hne, hq⟩
      exact ⟨hne, hl, hf, hq⟩
  | free slot =>
    by_cases hlt : s.pools.pool.num ≤ slot
    · simp [heldAfter, onLists, listPool, hlt, hinvalid, h.held t]
    · by_cases hf : slot ∈ freeSlots s.pools
      · simp [heldAfter, onLists, listPool, hlt, hf, hisFree, h.held t]
      · have hlt' : slot < s.pools.pool.num := Nat.not_le.mp hlt
        have hfreed : onLists (listPool s.pools) (.free slot) =
            (slot, {listPool s.pools with free := slot :: freeSlots s.pools}) := by
          simp [onLists, listPool, hlt, hf]
        rw [hfreed]
        simp only [heldAfter, hlt', if_true, Finset.mem_erase, h.held t, ListPool.Held,
          List.mem_cons, not_or, listPool]
        tauto
  | dequeue name slot =>
    by_cases hlt : s.pools.pool.num ≤ slot
    · simp [heldAfter, onLists, listPool, hlt, hinvalid, h.held t]
    · by_cases hq : slot ∈ queueSlots s.pools name
      · have hheld := h.held_dequeued hq t
        simpa [heldAfter, onLists, listPool, hlt, hq, Nat.not_le.mp hlt] using hheld
      · by_cases hf : slot ∈ freeSlots s.pools
        · simp [heldAfter, onLists, listPool, hlt, hq, hf, hisFree, h.held t]
        · simp [heldAfter, onLists, listPool, hlt, hq, hf, hisDequeued, h.held t]
  | dequeueFirst name =>
    cases hq : queueSlots s.pools name with
    | nil =>
      have hupdate : Function.update (queueSlots s.pools) name [] = queueSlots s.pools := by
        rw [← hq, Function.update_eq_self]
      simp [heldAfter, onLists, listPool, ListPool.setQueue, hq, hupdate, hinvalid, h.held t]
    | cons slot l =>
      have hmem : slot ∈ queueSlots s.pools name := by simp [hq]
      have hheld := h.held_dequeued hmem t
      have hlt : slot < s.pools.pool.num := hw.lists_lt name slot hmem
      simpa [heldAfter, onLists, listPool, hq, hlt] using hheld
  | findFirst name query => exact h.held t

/-- A permitted call comes back and keeps the invariant. -/
theorem inv_step {call : Call ι} {s' : State ι} (h : Inv num s) (hc : Permitted s call)
    (hs : step s call = some s') : Inv num s' := by
  have hop := h.admissible hc
  obtain ⟨report, m', hcall, hr⟩ := blocking_refines h.wellFormed h.spinlock hop
  rw [step_eq h.spinlock, hcall, Option.map_some, Option.some.injEq] at hs
  subst hs
  refine ⟨hr.wellFormed, hr.spinlock, ?_, fun t => ?_⟩
  · have hnum := congrArg ListPool.num hr.lists_eq
    rw [onLists_num] at hnum
    exact hnum.trans h.num_eq
  · rw [hr.report_eq, hr.lists_eq]
    exact h.held_after hop t

/-- Every permitted call comes back. -/
theorem step_returns {call : Call ι} (h : Inv num s) (hc : Permitted s call) :
    ∃ s', step s call = some s' := by
  obtain ⟨report, m', hcall, -⟩ := blocking_refines h.wellFormed h.spinlock (h.admissible hc)
  exact ⟨_, by rw [step_eq h.spinlock, hcall, Option.map_some]⟩

/-- The slots are partitioned under the invariant. -/
theorem Inv.partitioned (h : Inv num s) : Partitioned num s := by
  have hw := h.wellFormed
  obtain ⟨hinvalid, hisFree, hisDequeued⟩ := h.not_lt
  refine ⟨h.num_eq, fun slot => ?_, fun slot hf i hq => hw.free_disjoint i slot hq hf,
    fun slot hf hh => ((h.held slot).mp hh).2.1 hf,
    fun i slot hq hh => ((h.held slot).mp hh).2.2 i hq, hw.disjoint, hw.free_nodup,
    ⟨hw.free_head, hw.free_chain⟩, hw.nodup, fun i => ⟨hw.head i, hw.tail i, hw.linked i⟩,
    fun i slot hq => hw.queued_state hq, ?_, ?_, ?_⟩
  · rw [h.held slot, ← h.num_eq]
    constructor
    · intro hlt
      by_cases hf : slot ∈ freeSlots s.pools
      · exact .inl hf
      · by_cases hq : ∃ i, slot ∈ queueSlots s.pools i
        · exact .inr (.inl hq)
        · exact .inr (.inr ⟨hlt, hf, not_exists.mp hq⟩)
    · rintro (hf | ⟨i, hq⟩ | hh)
      · exact hw.free_lt slot hf
      · exact hw.lists_lt i slot hq
      · exact hh.1
  · intro slot hf isBlocking
    rw [step_eq h.spinlock, ← trying_of_free h.spinlock]
    simp [trying, tryFree_free hw h.spinlock hf, heldAfter, hisFree]
  · intro slot hs name isBlocking
    have hq : ∀ i, slot ∉ queueSlots s.pools i := by
      rcases hs with hf | hh
      · exact fun i hq => hw.free_disjoint i slot hq hf
      · exact ((h.held slot).mp hh).2.2
    have hlt : slot < s.pools.pool.num := by
      rcases hs with hf | hh
      · exact hw.free_lt slot hf
      · exact ((h.held slot).mp hh).1
    obtain ⟨hsame, hrefused⟩ := tryDequeue_not_queued hw h.spinlock name hlt hq
    rw [step_eq h.spinlock, ← trying_of_free h.spinlock]
    simp [trying, heldAfter, hsame, Nat.not_lt.mpr hrefused]
  · have ha := hw.allocated
    have hn := h.num_eq
    omega

/-- In every run over an initialized pool the slots are partitioned, and every
further call comes back. -/
theorem pool_partitioned (hpos : 0 < num) (hnum : num < poolMaxValid)
    (h : Reachable (Initialized num) step Permitted s) :
    Partitioned num s ∧ ∀ call, Permitted s call → ∃ s', step s call = some s' := by
  have hinv : Inv num s := h.invariant (Inv num) (fun _ hs => inv_initialized hpos hnum hs)
    fun _ _ _ hinv hc hs => inv_step hinv hc hs
  exact ⟨hinv.partitioned, fun call hc => step_returns hinv hc⟩

end Runs

/-- Two slots go through two queues on one pool; one is freed twice and the
other dequeued twice. -/
def twoQueues : List (Call Bool) :=
  [⟨.allocate, true⟩, ⟨.allocate, false⟩, ⟨.enqueue true 0, true⟩, ⟨.enqueue false 1, false⟩,
    ⟨.dequeueFirst true, true⟩, ⟨.free 0, true⟩, ⟨.free 0, true⟩,
    ⟨.dequeue false 1, false⟩, ⟨.dequeue false 1, true⟩]

/-- The slots of the pool are partitioned then. -/
theorem pool_partitioned_twoQueues :
    ∃ s : State Bool, execWithin step Permitted twoQueues ⟨freshPool, ∅⟩ = some s ∧
      Partitioned 4 s := by
  have hrun : (execWithin step Permitted twoQueues ⟨freshPool, ∅⟩).isSome = true := by decide
  obtain ⟨s, hs⟩ := Option.isSome_iff_exists.mp hrun
  have hstart : Initialized 4 (⟨freshPool, ∅⟩ : State Bool) :=
    ⟨⟨⟨0, 0, 0, 0, 0, 0, true, fun _ => ⟨0, 0⟩⟩, 0, 4, rfl⟩, fun _ => ⟨rfl, rfl⟩, rfl⟩
  have hreach : Reachable (Initialized 4) step Permitted s :=
    execWithin_reachable (Reachable.start hstart) hs
  exact ⟨s, hs, (pool_partitioned (by decide) (by decide) hreach).1⟩

end Uvisor.PoolHistory
