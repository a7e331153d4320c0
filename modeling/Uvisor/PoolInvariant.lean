import Uvisor.PoolQueue
import Mathlib.Data.List.Nodup
import Mathlib.Data.List.Perm.Subperm
import Mathlib.Tactic.Common

/-!
# The pool representation and the specifications of its operations

A pool is described by its free list and by one list of slots for every
queue. The description fixes all links and state bytes of those slots; every
remaining slot below the bound is held by whoever took it out. Each operation
is specified by what it does to the lists, so that users of a pool never look
at links again.
-/

namespace Uvisor.PoolInvariant

open PoolQueue LinkedList

variable {ι : Type}

/-! ## Fields after a write -/

section Fields

variable (pool : Pool) (slot value : ℕ) (acquired : Bool)

@[simp] theorem setNext_next (s : ℕ) :
    (pool.setNext slot value).next s = if s = slot then value else pool.next s := by
  by_cases h : s = slot
  · subst h; simp [Pool.setNext, Pool.next]
  · simp [Pool.setNext, Pool.next, h]

@[simp] theorem setNext_prev (s : ℕ) : (pool.setNext slot value).prev s = pool.prev s := by
  by_cases h : s = slot
  · subst h; simp [Pool.setNext, Pool.prev]
  · simp [Pool.setNext, Pool.prev, h]

@[simp] theorem setPrev_prev (s : ℕ) :
    (pool.setPrev slot value).prev s = if s = slot then value else pool.prev s := by
  by_cases h : s = slot
  · subst h; simp [Pool.setPrev, Pool.prev]
  · simp [Pool.setPrev, Pool.prev, h]

@[simp] theorem setPrev_next (s : ℕ) : (pool.setPrev slot value).next s = pool.next s := by
  by_cases h : s = slot
  · subst h; simp [Pool.setPrev, Pool.next]
  · simp [Pool.setPrev, Pool.next, h]

@[simp] theorem setLock_next : (pool.setLock acquired).next = pool.next := rfl
@[simp] theorem setLock_prev : (pool.setLock acquired).prev = pool.prev := rfl
@[simp] theorem setNext_num : (pool.setNext slot value).num = pool.num := rfl
@[simp] theorem setPrev_num : (pool.setPrev slot value).num = pool.num := rfl
@[simp] theorem setLock_num : (pool.setLock acquired).num = pool.num := rfl
@[simp] theorem setNext_firstFree : (pool.setNext slot value).firstFree = pool.firstFree := rfl
@[simp] theorem setPrev_firstFree : (pool.setPrev slot value).firstFree = pool.firstFree := rfl
@[simp] theorem setLock_firstFree : (pool.setLock acquired).firstFree = pool.firstFree := rfl
@[simp] theorem setNext_numAllocated :
    (pool.setNext slot value).numAllocated = pool.numAllocated := rfl
@[simp] theorem setPrev_numAllocated :
    (pool.setPrev slot value).numAllocated = pool.numAllocated := rfl
@[simp] theorem setLock_numAllocated :
    (pool.setLock acquired).numAllocated = pool.numAllocated := rfl
@[simp] theorem setLock_spinlock : (pool.setLock acquired).spinlock = acquired := rfl
@[simp] theorem setNext_spinlock : (pool.setNext slot value).spinlock = pool.spinlock := rfl
@[simp] theorem setPrev_spinlock : (pool.setPrev slot value).spinlock = pool.spinlock := rfl

end Fields

/-- The pool and its queues are described by a free list and by one list of
slots for each queue. -/
structure Represents (m : PoolQueues ι) (free : List ℕ) (lists : ι → List ℕ) : Prop where
  /-- The bound keeps clear of the reserved slot numbers. -/
  num_lt : m.pool.num < poolMaxValid
  /-- The free list starts where the pool says. -/
  free_head : m.pool.firstFree = free.headD slotInvalid
  /-- The free list is threaded through the next fields. -/
  free_chain : Chained m.pool.next free slotInvalid
  /-- Free slots carry the free state. -/
  free_state : ∀ s ∈ free, m.pool.prev s = slotIsFree
  /-- Free slots are below the bound. -/
  free_lt : ∀ s ∈ free, s < m.pool.num
  /-- No slot is free twice. -/
  free_nodup : free.Nodup
  /-- Every queue starts at its head field. -/
  head : ∀ i, (m.queue i).head = (lists i).headD slotInvalid
  /-- Every queue ends at its tail field. -/
  tail : ∀ i, (m.queue i).tail = (lists i).getLastD slotInvalid
  /-- Every queue is threaded in both directions. -/
  linked : ∀ i, Linked m.pool.next m.pool.prev slotInvalid (lists i) slotInvalid
  /-- Queued slots are below the bound. -/
  lists_lt : ∀ i, ∀ s ∈ lists i, s < m.pool.num
  /-- No slot is in a queue twice. -/
  nodup : ∀ i, (lists i).Nodup
  /-- No slot is in two queues. -/
  disjoint : ∀ i j, i ≠ j → ∀ s ∈ lists i, s ∉ lists j
  /-- No queued slot is free. -/
  free_disjoint : ∀ i, ∀ s ∈ lists i, s ∉ free
  /-- All other slots carry the dequeued state. -/
  held_state : ∀ s < m.pool.num, s ∉ free → (∀ i, s ∉ lists i) → m.pool.prev s = slotIsDequeued
  /-- The counter counts the slots that are not free. -/
  allocated : m.pool.numAllocated+free.length = m.pool.num

/-- A slot that is neither free nor queued. -/
def Held (m : PoolQueues ι) (free : List ℕ) (lists : ι → List ℕ) (slot : ℕ) : Prop :=
  slot < m.pool.num ∧ slot ∉ free ∧ ∀ i, slot ∉ lists i

/-! ## Consequences of the description -/

section Consequences

variable {m : PoolQueues ι} {free : List ℕ} {lists : ι → List ℕ}

/-- A slot below the bound is none of the reserved numbers. -/
theorem Represents.lt_reserved (h : Represents m free lists) {s : ℕ} (hs : s < m.pool.num) :
    s ≠ slotInvalid ∧ s ≠ slotIsDequeued ∧ s ≠ slotIsFree := by
  have hn := h.num_lt
  simp only [poolMaxValid, slotInvalid, slotIsDequeued, slotIsFree] at *
  omega

/-- The overlaid byte of a queued slot is a link, never a state. -/
theorem Represents.queued_state (h : Represents m free lists) {i : ι} {s : ℕ} (hs : s ∈ lists i) :
    m.pool.prev s ≠ slotIsFree ∧ m.pool.prev s ≠ slotIsDequeued := by
  rcases (h.linked i).prev_mem hs with hp | hp
  · rw [hp]
    decide
  · have hr := h.lt_reserved (h.lists_lt i _ hp)
    exact ⟨hr.2.2, hr.2.1⟩

/-- An empty queue is recognized by its head field. -/
theorem Represents.head_eq_invalid_iff (h : Represents m free lists) (i : ι) :
    (m.queue i).head = slotInvalid ↔ lists i = [] := by
  rw [h.head i]
  constructor
  · intro he
    by_contra hne
    exact (h.lt_reserved (h.lists_lt i _ (headD_mem hne _))).1 he
  · intro he
    rw [he]
    rfl

/-- Locking does not touch the description. -/
theorem Represents.setLock (h : Represents m free lists) (acquired : Bool) :
    Represents (m.setLock acquired) free lists :=
  ⟨h.num_lt, h.free_head, h.free_chain, h.free_state, h.free_lt, h.free_nodup, h.head, h.tail,
    h.linked, h.lists_lt, h.nodup, h.disjoint, h.free_disjoint, h.held_state, h.allocated⟩

/-- The description survives lock traffic around a critical section. -/
theorem Represents.unlock (h : Represents m free lists) : Represents m.unlock free lists :=
  h.setLock _

/-- No list is longer than the pool. -/
theorem Represents.length_le (h : Represents m free lists) (i : ι) :
    (lists i).length ≤ m.pool.num := by
  have hsub : lists i ⊆ List.range m.pool.num :=
    fun s hs => List.mem_range.mpr (h.lists_lt i s hs)
  simpa using ((h.nodup i).subperm hsub).length_le

end Consequences

/-! ## Effect of the critical sections on the description -/

section FreeList

variable {m : PoolQueues ι} {free : List ℕ} {lists : ι → List ℕ}

/-- Allocation from an empty free list reports the invalid slot. -/
theorem poolAlloc_nil (h : Represents m [] lists) : poolAlloc m.pool = (slotInvalid, m.pool) := by
  have hf : m.pool.firstFree = slotInvalid := h.free_head
  simp [poolAlloc, hf]

/-- Allocation takes the first free slot, which is then held. -/
theorem poolAlloc_cons {s : ℕ} (h : Represents m (s :: free) lists) :
    (poolAlloc m.pool).1 = s ∧
      Represents {m with pool := (poolAlloc m.pool).2} free lists ∧
      Held {m with pool := (poolAlloc m.pool).2} free lists s := by
  have hf : m.pool.firstFree = s := h.free_head
  have hs : s < m.pool.num := h.free_lt s (by simp)
  have hsi : s ≠ slotInvalid := (h.lt_reserved hs).1
  obtain ⟨hsf, hnd⟩ := List.nodup_cons.mp h.free_nodup
  have hsl : ∀ i, s ∉ lists i := fun i hi => h.free_disjoint i s hi (by simp)
  have halloc : m.pool.numAllocated+free.length+1 = m.pool.num := by
    have ha := h.allocated
    rw [List.length_cons] at ha
    omega
  have hn := h.num_lt
  have hlink : ∀ t, t ≠ s → (poolAlloc m.pool).2.next t = m.pool.next t ∧
      (poolAlloc m.pool).2.prev t = m.pool.prev t := by
    intro t ht
    simp [poolAlloc, hf, hsi, Pool.next, Pool.prev, Pool.setNext, Pool.setPrev, ht]
  have hstate : (poolAlloc m.pool).2.prev s = slotIsDequeued := by
    simp [poolAlloc, hf, hsi, Pool.prev, Pool.setNext, Pool.setPrev]
  have hfirst : (poolAlloc m.pool).2.firstFree = m.pool.next s := by
    simp [poolAlloc, hf, hsi]
  have hnum : (poolAlloc m.pool).2.num = m.pool.num := by simp [poolAlloc, hf, hsi]
  have hcount : (poolAlloc m.pool).2.numAllocated = (m.pool.numAllocated+1)%256 := by
    simp [poolAlloc, hf, hsi]
  have hmod : (m.pool.numAllocated+1)%256 = m.pool.numAllocated+1 := by
    apply Nat.mod_eq_of_lt
    simp only [poolMaxValid] at hn
    omega
  refine ⟨by simp [poolAlloc, hf, hsi], ?_, ?_⟩
  · refine ⟨?_, ?_, ?_, ?_, ?_, hnd, h.head, h.tail, ?_, ?_, h.nodup, h.disjoint, ?_, ?_, ?_⟩
    · exact hnum ▸ hn
    · exact hfirst.trans h.free_chain.1
    · exact h.free_chain.2.congr fun t ht => (hlink t fun he => hsf (he ▸ ht)).1
    · intro t ht
      exact (hlink t fun he => hsf (he ▸ ht)).2.trans (h.free_state t (by simp [ht]))
    · intro t ht
      exact hnum ▸ h.free_lt t (by simp [ht])
    · intro i
      exact (h.linked i).congr (fun t ht => (hlink t fun he => hsl i (he ▸ ht)).1)
        (fun t ht => (hlink t fun he => hsl i (he ▸ ht)).2)
    · intro i t ht
      exact hnum ▸ h.lists_lt i t ht
    · intro i t ht htf
      exact h.free_disjoint i t ht (by simp [htf])
    · intro t ht htf htl
      by_cases hts : t = s
      · rw [hts]
        exact hstate
      · exact (hlink t hts).2.trans
          (h.held_state t (hnum ▸ ht) (by simp [hts, htf]) htl)
    · change (poolAlloc m.pool).2.numAllocated+free.length = (poolAlloc m.pool).2.num
      rw [hcount, hmod, hnum]
      omega
  · exact ⟨hnum ▸ hs, hsf, hsl⟩

/-- Freeing a held slot puts it at the front of the free list. -/
theorem poolFree_represents (h : Represents m free lists) {s : ℕ} (hs : Held m free lists s) :
    Represents {m with pool := poolFree m.pool s} (s :: free) lists := by
  obtain ⟨hlt, hsf, hsl⟩ := hs
  have hlink : ∀ t, t ≠ s → (poolFree m.pool s).next t = m.pool.next t ∧
      (poolFree m.pool s).prev t = m.pool.prev t := by
    intro t ht
    simp [poolFree, Pool.next, Pool.prev, Pool.setNext, Pool.setPrev, ht]
  have hself : (poolFree m.pool s).next s = m.pool.firstFree ∧
      (poolFree m.pool s).prev s = slotIsFree := by
    simp [poolFree, Pool.next, Pool.prev, Pool.setNext, Pool.setPrev]
  have hshort : (s :: free).length ≤ m.pool.num := by
    have hsub : (s :: free) ⊆ List.range m.pool.num := by
      intro t ht
      rcases List.mem_cons.mp ht with ht | ht
      · exact List.mem_range.mpr (ht ▸ hlt)
      · exact List.mem_range.mpr (h.free_lt t ht)
    have hle := ((List.nodup_cons.mpr ⟨hsf, h.free_nodup⟩).subperm hsub).length_le
    rwa [List.length_range] at hle
  refine ⟨h.num_lt, rfl, ⟨hself.1.trans h.free_head, ?_⟩, ?_, ?_,
    List.nodup_cons.mpr ⟨hsf, h.free_nodup⟩, h.head, h.tail, ?_, h.lists_lt, h.nodup, h.disjoint, ?_,
    ?_, ?_⟩
  · exact h.free_chain.congr fun t ht => (hlink t fun he => hsf (he ▸ ht)).1
  · intro t ht
    rcases List.mem_cons.mp ht with ht | ht
    · rw [ht]
      exact hself.2
    · exact (hlink t fun he => hsf (he ▸ ht)).2.trans (h.free_state t ht)
  · intro t ht
    rcases List.mem_cons.mp ht with ht | ht
    · exact ht ▸ hlt
    · exact h.free_lt t ht
  · intro i
    exact (h.linked i).congr (fun t ht => (hlink t fun he => hsl i (he ▸ ht)).1)
      (fun t ht => (hlink t fun he => hsl i (he ▸ ht)).2)
  · intro i t ht htf
    rcases List.mem_cons.mp htf with htf | htf
    · exact hsl i (htf ▸ ht)
    · exact h.free_disjoint i t ht htf
  · intro t ht htf htl
    have hts : t ≠ s := fun he => htf (by simp [he])
    exact (hlink t hts).2.trans (h.held_state t ht (fun hf => htf (by simp [hf])) htl)
  · have ha := h.allocated
    have hn := h.num_lt
    rw [List.length_cons] at hshort
    change (m.pool.numAllocated+255)%256+(s :: free).length = m.pool.num
    rw [List.length_cons]
    simp only [poolMaxValid] at hn
    omega

end FreeList

section Effects

variable [DecidableEq ι] {m : PoolQueues ι} {free : List ℕ} {lists : ι → List ℕ}

/-- The common shape of queue updates: one queue gets a new list made of its
old slots and of held ones, slots outside both lists keep their links, and
slots that leave the queue get the dequeued state. -/
theorem Represents.update_queue (h : Represents m free lists) {m' : PoolQueues ι} {q : ι}
    {l : List ℕ} (hnum : m'.pool.num = m.pool.num)
    (hfirst : m'.pool.firstFree = m.pool.firstFree)
    (halloc : m'.pool.numAllocated = m.pool.numAllocated)
    (hqueue : ∀ i, i ≠ q → m'.queue i = m.queue i)
    (hhead : (m'.queue q).head = l.headD slotInvalid)
    (htail : (m'.queue q).tail = l.getLastD slotInvalid)
    (hlinked : Linked m'.pool.next m'.pool.prev slotInvalid l slotInvalid) (hnodup : l.Nodup)
    (hmem : ∀ s ∈ l, s ∈ lists q ∨ Held m free lists s)
    (hframe : ∀ s, s ∉ lists q → s ∉ l → m'.pool.next s = m.pool.next s ∧
      m'.pool.prev s = m.pool.prev s)
    (hleft : ∀ s ∈ lists q, s ∉ l → m'.pool.prev s = slotIsDequeued) :
    Represents m' free (Function.update lists q l) := by
  have hfree : ∀ s ∈ free, s ∉ lists q ∧ s ∉ l := by
    intro s hs
    refine ⟨fun hq => h.free_disjoint q s hq hs, fun hl => ?_⟩
    rcases hmem s hl with hq | hheld
    · exact h.free_disjoint q s hq hs
    · exact hheld.2.1 hs
  have hother : ∀ i, i ≠ q → ∀ s ∈ lists i, s ∉ lists q ∧ s ∉ l := by
    intro i hi s hs
    refine ⟨h.disjoint i q hi s hs, fun hl => ?_⟩
    rcases hmem s hl with hq | hheld
    · exact h.disjoint i q hi s hs hq
    · exact hheld.2.2 i hs
  refine ⟨hnum ▸ h.num_lt, hfirst ▸ h.free_head, ?_, ?_, ?_, h.free_nodup, ?_, ?_, ?_, ?_, ?_, ?_,
    ?_, ?_, ?_⟩
  · exact h.free_chain.congr fun s hs => (hframe s (hfree s hs).1 (hfree s hs).2).1
  · intro s hs
    rw [(hframe s (hfree s hs).1 (hfree s hs).2).2]
    exact h.free_state s hs
  · intro s hs
    rw [hnum]
    exact h.free_lt s hs
  · intro i
    by_cases hi : i = q
    · subst hi
      rw [hhead, Function.update_self]
    · rw [hqueue i hi, Function.update_of_ne hi, h.head i]
  · intro i
    by_cases hi : i = q
    · subst hi
      rw [htail, Function.update_self]
    · rw [hqueue i hi, Function.update_of_ne hi, h.tail i]
  · intro i
    by_cases hi : i = q
    · subst hi
      rwa [Function.update_self]
    · rw [Function.update_of_ne hi]
      exact (h.linked i).congr
        (fun s hs => (hframe s (hother i hi s hs).1 (hother i hi s hs).2).1)
        (fun s hs => (hframe s (hother i hi s hs).1 (hother i hi s hs).2).2)
  · intro i s hs
    rw [hnum]
    by_cases hi : i = q
    · subst hi
      rw [Function.update_self] at hs
      rcases hmem s hs with hq | hheld
      · exact h.lists_lt i s hq
      · exact hheld.1
    · rw [Function.update_of_ne hi] at hs
      exact h.lists_lt i s hs
  · intro i
    by_cases hi : i = q
    · subst hi
      rwa [Function.update_self]
    · rw [Function.update_of_ne hi]
      exact h.nodup i
  · intro i j hij s hs
    by_cases hi : i = q
    · subst hi
      rw [Function.update_self] at hs
      rw [Function.update_of_ne (Ne.symm hij)]
      exact fun hj => (hother j (Ne.symm hij) s hj).2 hs
    · rw [Function.update_of_ne hi] at hs
      by_cases hj : j = q
      · subst hj
        rw [Function.update_self]
        exact (hother i hi s hs).2
      · rw [Function.update_of_ne hj]
        exact h.disjoint i j hij s hs
  · intro i s hs
    by_cases hi : i = q
    · subst hi
      rw [Function.update_self] at hs
      exact fun hf => (hfree s hf).2 hs
    · rw [Function.update_of_ne hi] at hs
      exact h.free_disjoint i s hs
  · intro s hs hsf hsl
    rw [hnum] at hs
    have hl : s ∉ l := by simpa using hsl q
    by_cases hq : s ∈ lists q
    · exact hleft s hq hl
    · rw [(hframe s hq hl).2]
      refine h.held_state s hs hsf fun i => ?_
      by_cases hi : i = q
      · rwa [hi]
      · simpa [hi] using hsl i
  · rw [halloc, hnum]
    exact h.allocated

/-- Enqueueing a held slot appends it to the queue's list. -/
theorem enqueue_represents (h : Represents m free lists) (q : ι) {s : ℕ}
    (hs : Held m free lists s) :
    Represents (enqueue m q s) free (Function.update lists q (lists q ++ [s])) := by
  have hsq : s ∉ lists q := hs.2.2 q
  have hmem : ∀ t ∈ lists q ++ [s], t ∈ lists q ∨ Held m free lists t := by
    intro t ht
    rcases List.mem_append.mp ht with ht | ht
    · exact Or.inl ht
    · exact Or.inr (List.mem_singleton.mp ht ▸ hs)
  have hnodup : (lists q ++ [s]).Nodup := by
    rw [List.nodup_append]
    exact ⟨h.nodup q, List.nodup_singleton s, fun a ha b hb hab =>
      hsq (List.mem_singleton.mp hb ▸ hab ▸ ha)⟩
  by_cases he : lists q = []
  · have hhead := (h.head_eq_invalid_iff q).mpr he
    unfold enqueue
    simp only [hhead, if_true]
    refine h.update_queue rfl rfl rfl ?_ ?_ ?_ ?_ hnodup hmem ?_ ?_
    · intro i hi
      exact Function.update_of_ne hi _ _
    · simp [he]
    · simp [he]
    · simp [he, Linked]
    · intro t _ ht
      have hts : t ≠ s := fun hts => ht (by simp [hts])
      simp [hts]
    · simp [he]
  · have hhead : ¬(m.queue q).head = slotInvalid := fun hh => he ((h.head_eq_invalid_iff q).mp hh)
    have hlast : (m.queue q).tail ∈ lists q := h.tail q ▸ getLastD_mem he _
    have hne : (m.queue q).tail ≠ s := fun ht => hsq (ht ▸ hlast)
    unfold enqueue
    simp only [if_neg hhead]
    refine h.update_queue rfl rfl rfl ?_ ?_ ?_ ?_ hnodup hmem ?_ ?_
    · intro i hi
      exact Function.update_of_ne hi _ _
    · rw [headD_append he, ← h.head q]
      simp
    · simp
    · refine linked_append.mpr ⟨(h.linked q).exit (h.nodup q) ?_ ?_ ?_, ?_⟩
      · intro a ha hla
        have has : a ≠ s := fun has => hsq (has ▸ ha)
        have hat : a ≠ (m.queue q).tail := by rwa [h.tail q]
        simp [has, hat]
      · intro _
        rw [← h.tail q]
        simp [hne]
      · intro a ha
        have has : a ≠ s := fun has => hsq (has ▸ ha)
        simp [has]
      · simp [Linked, h.tail q]
    · intro t ht hts
      have hne' : t ≠ s := fun hh => hts (by simp [hh])
      have htt : t ≠ (m.queue q).tail := fun hh => ht (hh ▸ hlast)
      simp [hne', htt]
    · intro t ht htl
      exact absurd (List.mem_append_left _ ht) htl

/-- Marking a slot dequeued after its neighbours have been joined. Where a
neighbour is missing there is nothing to join. -/
theorem Represents.spliced (h : Represents m free lists) {q : ι} {l r : List ℕ} {s : ℕ}
    (hlr : lists q = l ++ s :: r) {pool : Pool} {header : Queue}
    (hnum : pool.num = m.pool.num) (hfirst : pool.firstFree = m.pool.firstFree)
    (halloc : pool.numAllocated = m.pool.numAllocated)
    (hhead : header.head = (l ++ r).headD slotInvalid)
    (htail : header.tail = (l ++ r).getLastD slotInvalid)
    (hnext : ∀ t, t ≠ s → pool.next t =
      if l ≠ [] ∧ t = l.getLastD slotInvalid then r.headD slotInvalid else m.pool.next t)
    (hprev : ∀ t, t ≠ s → pool.prev t =
      if r ≠ [] ∧ t = r.headD slotInvalid then l.getLastD slotInvalid else m.pool.prev t) :
    Represents ⟨(pool.setNext s slotInvalid).setPrev s slotIsDequeued,
      Function.update m.queue q header⟩ free (Function.update lists q (l ++ r)) := by
  have hnd := h.nodup q
  rw [hlr, List.nodup_append, List.nodup_cons] at hnd
  obtain ⟨hl, ⟨hsr, hr⟩, hdisj⟩ := hnd
  have hsl : s ∉ l := fun hm => hdisj s hm s (by simp) rfl
  have hlrd : ∀ a ∈ l, a ∉ r := fun a ha har => hdisj a ha a (by simp [har]) rfl
  have hlink := h.linked q
  rw [hlr] at hlink
  refine h.update_queue hnum hfirst halloc ?_ (by simpa using hhead) (by simpa using htail) ?_ ?_ ?_
    ?_ ?_
  · intro i hi
    exact Function.update_of_ne hi _ _
  · refine hlink.splice hl hr ?_ ?_ ?_ ?_ ?_ ?_
    · intro b hb hne
      have hbs : b ≠ s := fun he => hsl (he ▸ hb)
      rw [setPrev_next, setNext_next, if_neg hbs, hnext b hbs, if_neg (fun hh => hne hh.2)]
    · intro hne
      have hbs : l.getLastD slotInvalid ≠ s := fun he => hsl (he ▸ getLastD_mem hne _)
      rw [setPrev_next, setNext_next, if_neg hbs, hnext _ hbs, if_pos ⟨hne, rfl⟩]
    · intro b hb
      have hbs : b ≠ s := fun he => hsr (he ▸ hb)
      have hbl : ¬(l ≠ [] ∧ b = l.getLastD slotInvalid) :=
        fun ⟨hne, he⟩ => hlrd b (he ▸ getLastD_mem hne _) hb
      rw [setPrev_next, setNext_next, if_neg hbs, hnext b hbs, if_neg hbl]
    · intro b hb
      have hbs : b ≠ s := fun he => hsl (he ▸ hb)
      have hbr : ¬(r ≠ [] ∧ b = r.headD slotInvalid) :=
        fun ⟨hne, he⟩ => hlrd b hb (he ▸ headD_mem hne _)
      rw [setPrev_prev, if_neg hbs, setNext_prev, hprev b hbs, if_neg hbr]
    · intro b hb hne
      have hbs : b ≠ s := fun he => hsr (he ▸ hb)
      rw [setPrev_prev, if_neg hbs, setNext_prev, hprev b hbs, if_neg (fun hh => hne hh.2)]
    · intro hne
      have hbs : r.headD slotInvalid ≠ s := fun he => hsr (he ▸ headD_mem hne _)
      rw [setPrev_prev, if_neg hbs, setNext_prev, hprev _ hbs, if_pos ⟨hne, rfl⟩]
  · exact List.nodup_append.mpr ⟨hl, hr, fun a ha b hb hab => hlrd a ha (hab ▸ hb)⟩
  · intro t ht
    rw [hlr]
    exact Or.inl (by rcases List.mem_append.mp ht with ht | ht <;> simp [ht])
  · intro t ht _
    rw [hlr] at ht
    have hts : t ≠ s := fun he => ht (by simp [he])
    have htl : ¬(l ≠ [] ∧ t = l.getLastD slotInvalid) :=
      fun ⟨hne, he⟩ => ht (List.mem_append_left _ (he ▸ getLastD_mem hne _))
    have htr : ¬(r ≠ [] ∧ t = r.headD slotInvalid) :=
      fun ⟨hne, he⟩ => ht (List.mem_append_right _ (List.mem_cons_of_mem _ (he ▸ headD_mem hne _)))
    rw [setPrev_next, setNext_next, if_neg hts, hnext t hts, if_neg htl, setPrev_prev, if_neg hts,
      setNext_prev, hprev t hts, if_neg htr]
    exact ⟨rfl, rfl⟩
  · intro t ht hn
    have hts : t = s := by
      rw [hlr] at ht
      simp only [List.mem_append, List.mem_cons] at ht hn
      tauto
    simp [hts]

/-- Splicing a queued slot out erases it from the queue's list. The four
branches of the source are the four shapes of the list around the slot. -/
theorem dequeue_represents (h : Represents m free lists) {q : ι} {s : ℕ} (hs : s ∈ lists q) :
    Represents (dequeue m q s) free (Function.update lists q ((lists q).erase s)) := by
  obtain ⟨l, r, hlr⟩ := List.append_of_mem hs
  have hnd := h.nodup q
  have hne : lists q ≠ [] := by rw [hlr]; simp
  rw [hlr, List.nodup_append, List.nodup_cons] at hnd
  obtain ⟨hl, ⟨hsr, hr⟩, hdisj⟩ := hnd
  have hsl : s ∉ l := fun hm => hdisj s hm s (by simp) rfl
  have herase : (lists q).erase s = l ++ r := by
    rw [hlr, List.erase_append_right _ hsl, List.erase_cons_head]
  have hlink := h.linked q
  rw [hlr] at hlink
  have hprev : m.pool.prev s = l.getLastD slotInvalid := (linked_append.mp hlink).2.1
  have hnext : m.pool.next s = r.headD slotInvalid := (linked_append.mp hlink).2.2.1
  have hhead : (m.queue q).head = l.headD s := by
    rw [h.head q, hlr]
    cases l <;> rfl
  have htail : (m.queue q).tail = r.getLastD s := by
    rw [h.tail q, hlr, getLastD_append, List.getLastD_cons]
  have hlhead : l ≠ [] → l.headD s ≠ s := fun hn he => hsl (he ▸ headD_mem hn _)
  have hrlast : r ≠ [] → r.getLastD s ≠ s := fun hn he => hsr (he ▸ getLastD_mem hn _)
  rw [herase]
  by_cases hln : l = []
  · subst hln
    by_cases hrn : r = []
    · subst hrn
      have hend : (m.queue q).head = (m.queue q).tail := by rw [hhead, htail]; rfl
      simp only [dequeue, if_pos hend]
      exact h.spliced hlr rfl rfl rfl rfl rfl (by simp) (by simp)
    · have hend : ¬(m.queue q).head = (m.queue q).tail := by
        rw [hhead, htail]
        exact fun he => hrlast hrn he.symm
      have hfirst : (m.queue q).head = s := hhead
      simp only [dequeue, if_neg hend, if_pos hfirst, hnext]
      refine h.spliced hlr rfl rfl rfl rfl ?_ (by simp) ?_
      · rw [List.nil_append, htail]
        exact getLastD_eq_of_ne_nil hrn _ _
      · intro t _
        rw [setPrev_prev]
        simp only [hrn, ne_eq, not_false_eq_true, true_and]
        rfl
  · have hfirst : ¬(m.queue q).head = s := by
      rw [hhead]
      exact hlhead hln
    by_cases hrn : r = []
    · subst hrn
      have hlast : (m.queue q).tail = s := htail
      have hend : ¬(m.queue q).head = (m.queue q).tail := by rwa [hlast]
      simp only [dequeue, if_neg hend, if_neg hfirst, if_pos hlast, hprev]
      refine h.spliced hlr rfl rfl rfl ?_ ?_ ?_ (by simp)
      · rw [List.append_nil]
        exact hhead.trans (headD_eq_of_ne_nil hln _ _)
      · rw [List.append_nil]
      · intro t _
        rw [setNext_next]
        simp only [hln, ne_eq, not_false_eq_true, true_and]
        rfl
    · have hlast : ¬(m.queue q).tail = s := by
        rw [htail]
        exact hrlast hrn
      have hend : ¬(m.queue q).head = (m.queue q).tail := by
        rw [hhead, htail]
        intro he
        have hmem := headD_mem hln s
        rw [he] at hmem
        exact hdisj _ hmem _ (List.mem_cons_of_mem _ (getLastD_mem hrn s)) rfl
      simp only [dequeue, if_neg hend, if_neg hfirst, if_neg hlast, hprev, hnext, setNext_prev]
      refine h.spliced hlr rfl rfl rfl ?_ ?_ ?_ ?_
      · rw [headD_append hln]
        exact hhead.trans (headD_eq_of_ne_nil hln _ _)
      · rw [getLastD_append]
        exact htail.trans (getLastD_eq_of_ne_nil hrn _ _)
      · intro t _
        rw [setPrev_next, setNext_next]
        simp only [hln, ne_eq, not_false_eq_true, true_and]
      · intro t _
        rw [setPrev_prev, setNext_prev]
        simp only [hrn, ne_eq, not_false_eq_true, true_and]

end Effects

/-! ## Operations on a pool whose lock is free -/

section Locking

variable {m : PoolQueues ι} {β : Type} {failure : β}
  {body : PoolQueues ι → β × PoolQueues ι}

/-- Releasing a lock that was free before it was taken restores the pool. -/
theorem unlock_setLock (hl : m.pool.spinlock = false) (acquired : Bool) :
    (m.setLock acquired).unlock = m := by
  rcases m with ⟨pool, queue⟩
  rcases pool with ⟨magic, array, stride, num, numAllocated, firstFree, spinlock, managementArray⟩
  simp only at hl
  subst hl
  rfl

theorem withTrylock_of_free (hl : m.pool.spinlock = false) :
    withTrylock m failure body = ((body (m.setLock true)).1, (body (m.setLock true)).2.unlock) := by
  simp [withTrylock, uvisorSpinTrylock, hl]

/-- A try operation on a held lock reports failure and changes nothing. -/
theorem withTrylock_of_held (hl : m.pool.spinlock = true) :
    withTrylock m failure body = (failure, m) := by
  rcases m with ⟨pool, queue⟩
  rcases pool with ⟨magic, array, stride, num, numAllocated, firstFree, spinlock, managementArray⟩
  simp only at hl
  subst hl
  rfl

/-- A try operation leaves the lock as it found it. -/
theorem withTrylock_spinlock :
    (withTrylock m failure body).2.pool.spinlock = m.pool.spinlock := by
  cases hl : m.pool.spinlock with
  | false => rw [withTrylock_of_free hl]; rfl
  | true => rw [withTrylock_of_held hl]; exact hl

/-- A blocking operation on a free lock is the try operation. -/
theorem withLock_of_free (hl : m.pool.spinlock = false) :
    withLock m body = some (withTrylock m failure body) := by
  rw [withTrylock_of_free hl]
  simp [withLock, uvisorSpinLock, uvisorSpinTrylock, hl]

end Locking

end Uvisor.PoolInvariant
