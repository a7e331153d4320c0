import Uvisor.Execution
import Uvisor.PoolOperations

/-!
# Threads that share the spinlock of a pool

Every pool-queue operation acquires the lock of the pool, runs its critical
section and releases the lock, and other threads may run between these
steps. Finding releases the lock inside its critical section when it has a
match, and the operation around it releases the lock once more. The second
release frees the lock of whoever has acquired it in the meantime.
-/

namespace Uvisor.PoolLocking

open PoolQueue PoolInvariant PoolOperations Execution

variable {ι : Type} [DecidableEq ι]

/-- Operations on a pool and its queues; each has a blocking and a try form. -/
inductive Operation (ι : Type) where
  | allocate
  | enqueue (name : ι) (slot : ℕ)
  | free (slot : ℕ)
  | dequeue (name : ι) (slot : ℕ)
  | dequeueFirst (name : ι)
  | findFirst (name : ι) (query : ℕ → Bool)

/-- Whether an operation gets as far as the lock. -/
def Operation.needsLock (m : PoolQueues ι) : Operation ι → Bool
  | .allocate => true
  | .enqueue _ slot => slot ≠ slotInvalid
  | .free slot => slot < m.pool.num
  | .dequeue _ slot => slot < m.pool.num
  | .dequeueFirst _ => true
  | .findFirst _ _ => true

/-- The critical section of an operation. The flag says whether the lock has
been released inside it; there is no result when a walk never ends. -/
def Operation.criticalSection (m : PoolQueues ι) : Operation ι → Option (Bool × PoolQueues ι)
  | .allocate => some (false, (allocateSection m).2)
  | .enqueue name slot => some (false, PoolQueue.enqueue m name slot)
  | .free slot => some (false, (freeSection slot m).2)
  | .dequeue name slot => some (false, (dequeueSection name slot m).2)
  | .dequeueFirst name => some (false, (tryDequeueFirst m name).2)
  | .findFirst name query =>
    (PoolQueue.findFirst m name query).map fun found => (decide (found.1 ≠ slotInvalid), found.2)

/-- Where a thread is. -/
inductive Pc (ι : Type) where
  /-- Outside the pool-queue operations. -/
  | idle
  /-- In front of the lock, with the blocking or the try form. -/
  | trying (op : Operation ι) (blocking : Bool)
  /-- Inside the critical section, before its body. -/
  | inside (op : Operation ι)
  /-- Inside the critical section, in front of the release. -/
  | leaving
  /-- After a release inside the critical section and in front of the second
  one. -/
  | released

/-- Whether a thread is inside a critical section. -/
def Pc.isInside : Pc ι → Bool
  | .inside _ => true
  | .leaving => true
  | _ => false

/-- Whether a thread stands between two releases. -/
def Pc.isReleased : Pc ι → Bool
  | .released => true
  | _ => false

/-- A pool and the threads that use it. -/
structure State (ι : Type) where
  /-- The pool and its queues. -/
  pools : PoolQueues ι
  /-- Position of every thread. -/
  pc : ℕ → Pc ι

/-- Steps of the threads. -/
inductive Action (ι : Type) where
  | call (thread : ℕ) (op : Operation ι) (blocking : Bool)
  | acquire (thread : ℕ)
  | run (thread : ℕ)
  | release (thread : ℕ)

/-- Move one thread. -/
def State.move (s : State ι) (pools : PoolQueues ι) (thread : ℕ) (pc : Pc ι) : State ι :=
  ⟨pools, Function.update s.pc thread pc⟩

/-- One step; the result is missing where the action is not the thread's next. -/
def step (s : State ι) : Action ι → Option (State ι)
  | .call i op blocking =>
    match s.pc i with
    | .idle =>
      if op.needsLock s.pools then some (s.move s.pools i (.trying op blocking)) else some s
    | _ => none
  | .acquire i =>
    match s.pc i with
    | .trying op blocking =>
      let lock := uvisorSpinTrylock s.pools.pool.spinlock
      if lock.1 = true then some (s.move (s.pools.setLock lock.2) i (.inside op))
      else if blocking then some s
      else some (s.move s.pools i .idle)
    | _ => none
  | .run i =>
    match s.pc i with
    | .inside op =>
      (op.criticalSection s.pools).map fun out =>
        s.move out.2 i (if out.1 then .released else .leaving)
    | _ => none
  | .release i =>
    match s.pc i with
    | .leaving => some (s.move s.pools.unlock i .idle)
    | .released => some (s.move s.pools.unlock i .idle)
    | _ => none

/-- All threads are outside, and the lock is free. -/
def Initial (s : State ι) : Prop := s.pools.pool.spinlock = false ∧ ∀ i, s.pc i = .idle

/-- The step does not acquire the lock while a thread stands between the two
releases of a find. -/
def OutsideWindow (s : State ι) : Action ι → Prop
  | .acquire _ => ∀ j, (s.pc j).isReleased = false
  | _ => True

/-! ## Alone, the steps make up the operation -/

/-- The whole operation in its blocking form. -/
def Operation.whole (m : PoolQueues ι) : Operation ι → Option (PoolQueues ι)
  | .allocate => (uvisorPoolAllocate m).map Prod.snd
  | .enqueue name slot => uvisorPoolQueueEnqueue m name slot
  | .free slot => (uvisorPoolFree m slot).map Prod.snd
  | .dequeue name slot => (uvisorPoolQueueDequeue m name slot).map Prod.snd
  | .dequeueFirst name => (uvisorPoolQueueDequeueFirst m name).map Prod.snd
  | .findFirst name query => (uvisorPoolQueueFindFirst m name query).map Prod.snd

/-- On a free lock the operation is its critical section between an acquire
and a release. -/
theorem whole_eq_criticalSection {m : PoolQueues ι} {op : Operation ι}
    (hl : m.pool.spinlock = false) (hop : op.needsLock m = true) :
    op.whole m = (op.criticalSection (m.setLock true)).map fun out => out.2.unlock := by
  cases op with
  | allocate =>
    simp [Operation.whole, Operation.criticalSection, uvisorPoolAllocate, withLock,
      uvisorSpinLock, uvisorSpinTrylock, hl]
  | enqueue name slot =>
    simp only [Operation.needsLock, decide_eq_true_eq] at hop
    simp [Operation.whole, Operation.criticalSection, uvisorPoolQueueEnqueue, withLock,
      uvisorSpinLock, uvisorSpinTrylock, hl, hop]
  | free slot =>
    simp only [Operation.needsLock, decide_eq_true_eq] at hop
    have hlt : ¬m.pool.num ≤ slot := by omega
    simp [Operation.whole, Operation.criticalSection, uvisorPoolFree, withLock,
      uvisorSpinLock, uvisorSpinTrylock, hl, if_neg hlt]
  | dequeue name slot =>
    simp only [Operation.needsLock, decide_eq_true_eq] at hop
    have hlt : ¬m.pool.num ≤ slot := by omega
    simp [Operation.whole, Operation.criticalSection, uvisorPoolQueueDequeue, withLock,
      uvisorSpinLock, uvisorSpinTrylock, hl, if_neg hlt]
  | dequeueFirst name =>
    simp [Operation.whole, Operation.criticalSection, uvisorPoolQueueDequeueFirst, withLock,
      uvisorSpinLock, uvisorSpinTrylock, hl]
  | findFirst name query =>
    simp [Operation.whole, Operation.criticalSection, uvisorPoolQueueFindFirst, uvisorSpinLock,
      uvisorSpinTrylock, hl, Function.comp_def]

/-- Without interruption the four steps do what the operation does. -/
theorem exec_alone {s : State ι} {i : ℕ} {op : Operation ι} {blocking : Bool}
    (hs : Initial s) (hop : op.needsLock s.pools = true) :
    (exec step [.call i op blocking, .acquire i, .run i, .release i] s).map State.pools =
      op.whole s.pools := by
  rw [whole_eq_criticalSection hs.1 hop]
  have hcall : step s (.call i op blocking) = some (s.move s.pools i (.trying op blocking)) := by
    simp [step, hs.2 i, hop]
  have hacquire : step (s.move s.pools i (.trying op blocking)) (.acquire i) =
      some (s.move (s.pools.setLock true) i (.inside op)) := by
    simp [step, State.move, uvisorSpinTrylock, hs.1]
  rw [exec, hcall, Option.bind_some, exec, hacquire, Option.bind_some]
  cases hsec : op.criticalSection (s.pools.setLock true) with
  | none => simp [exec, step, State.move, hsec]
  | some out => cases hout : out.1 <;> simp [exec, step, State.move, hsec, hout]

/-! ## Mutual exclusion -/

/-- A match releases the lock inside the walk, and a walk without a match
leaves the pool alone. -/
theorem findFirstFrom_cases {pool : Pool} {query : ℕ → Bool} {fuel slot : ℕ} {found : ℕ × Pool}
    (h : findFirstFrom pool query fuel slot = some found) :
    found.1 ≠ slotInvalid ∧ found.2 = pool.setLock false ∨
      found.1 = slotInvalid ∧ found.2 = pool := by
  induction fuel generalizing slot with
  | zero => cases h
  | succ fuel ih =>
    unfold findFirstFrom at h
    split at h
    · rename_i hslot
      split at h
      · cases h
        exact Or.inl ⟨hslot, rfl⟩
      · exact ih h
    · cases h
      exact Or.inr ⟨rfl, rfl⟩

theorem dequeue_spinlock (m : PoolQueues ι) (name : ι) (slot : ℕ) :
    (PoolQueue.dequeue m name slot).pool.spinlock = m.pool.spinlock := by
  simp only [PoolQueue.dequeue, setPrev_spinlock, setNext_spinlock]
  split
  · rfl
  · split
    · rfl
    · split
      · rfl
      · rfl

/-- A critical section keeps the lock unless it says that it has released it. -/
theorem criticalSection_spinlock {m : PoolQueues ι} {op : Operation ι} {out : Bool × PoolQueues ι}
    (h : op.criticalSection m = some out) :
    out.2.pool.spinlock = if out.1 then false else m.pool.spinlock := by
  cases op with
  | allocate =>
    cases h
    simp only [allocateSection, poolAlloc]
    split <;> rfl
  | enqueue name slot =>
    cases h
    simp only [PoolQueue.enqueue]
    split <;> rfl
  | free slot =>
    cases h
    simp only [freeSection]
    split <;> rfl
  | dequeue name slot =>
    cases h
    simp only [dequeueSection]
    split
    · rfl
    · split
      · exact dequeue_spinlock m name slot
      · rfl
  | dequeueFirst name =>
    cases h
    simp only [tryDequeueFirst]
    split
    · exact dequeue_spinlock m name _
    · rfl
  | findFirst name query =>
    simp only [Operation.criticalSection, PoolQueue.findFirst, Option.map_map,
      Option.map_eq_some_iff] at h
    obtain ⟨found, hfound, rfl⟩ := h
    rcases findFirstFrom_cases hfound with ⟨hne, hpool⟩ | ⟨heq, hpool⟩
    · simp [hne, hpool]
    · simp [heq, hpool]

/-- What holds between steps as long as nobody acquires the lock between two
releases. -/
structure Inv (s : State ι) : Prop where
  /-- One thread at most is inside. -/
  exclusive : ∀ i j, (s.pc i).isInside = true → (s.pc j).isInside = true → i = j
  /-- A thread that is inside holds the lock. -/
  locked : ∀ i, (s.pc i).isInside = true → s.pools.pool.spinlock = true
  /-- Nobody is inside while a thread stands between two releases. -/
  window : ∀ i j, (s.pc i).isReleased = true → (s.pc j).isInside = false

omit [DecidableEq ι] in
theorem inv_initial (s : State ι) (h : Initial s) : Inv s := by
  refine ⟨fun i j hi => ?_, fun i hi => ?_, fun i j hi => ?_⟩ <;>
    simp [h.2 i, Pc.isInside, Pc.isReleased] at hi

omit [DecidableEq ι] in
/-- A thread that is neither inside nor between two releases after its move
leaves the others as they are. -/
theorem Inv.move_out {s : State ι} (h : Inv s) {m : PoolQueues ι} {i : ℕ} {pc : Pc ι}
    (hin : pc.isInside = false) (hrel : pc.isReleased = false)
    (hlock : (∃ j, j ≠ i ∧ (s.pc j).isInside = true) → m.pool.spinlock = true) :
    Inv (s.move m i pc) := by
  have hpc : ∀ j, ((s.move m i pc).pc j).isInside = true → j ≠ i ∧ (s.pc j).isInside = true := by
    intro j hj
    by_cases hji : j = i
    · subst hji
      simp [State.move, hin] at hj
    · exact ⟨hji, by simpa [State.move, hji] using hj⟩
  refine ⟨fun j k hj hk => ?_, fun j hj => ?_, fun j k hj => ?_⟩
  · exact h.exclusive j k (hpc j hj).2 (hpc k hk).2
  · exact hlock ⟨j, hpc j hj⟩
  · by_cases hji : j = i
    · subst hji
      simp [State.move, hrel] at hj
    · have hold : (s.pc j).isReleased = true := by simpa [State.move, hji] using hj
      by_contra hk
      rw [Bool.not_eq_false] at hk
      have hin' := (hpc k hk).2
      rw [h.window j k hold] at hin'
      cases hin'

omit [DecidableEq ι] in
/-- A thread goes or stays inside while all others are outside. -/
theorem Inv.move_in {s : State ι} {m : PoolQueues ι} {i : ℕ} {pc : Pc ι}
    (hpc : pc.isReleased = false)
    (hothers : ∀ j, j ≠ i → (s.pc j).isInside = false ∧ (s.pc j).isReleased = false)
    (hlock : m.pool.spinlock = true) : Inv (s.move m i pc) := by
  have hin : ∀ j, ((s.move m i pc).pc j).isInside = true → j = i := by
    intro j hj
    by_contra hji
    simp [State.move, hji, hothers j hji] at hj
  have hrel : ∀ j, ((s.move m i pc).pc j).isReleased = false := by
    intro j
    by_cases hji : j = i
    · subst hji
      simpa [State.move] using hpc
    · simpa [State.move, hji] using (hothers j hji).2
  refine ⟨fun j k hj hk => (hin j hj).trans (hin k hk).symm, fun j _ => hlock, fun j k hj => ?_⟩
  rw [hrel j] at hj
  cases hj

omit [DecidableEq ι] in
/-- A thread that has released the lock early leaves nobody inside. -/
theorem Inv.move_released {s : State ι} {m : PoolQueues ι} {i : ℕ}
    (hothers : ∀ j, j ≠ i → (s.pc j).isInside = false) : Inv (s.move m i .released) := by
  have hin : ∀ j, ((s.move m i .released).pc j).isInside = false := by
    intro j
    by_cases hji : j = i
    · subst hji
      simp [State.move, Pc.isInside]
    · simpa [State.move, hji] using hothers j hji
  refine ⟨fun j k hj => ?_, fun j hj => ?_, fun j k _ => hin k⟩
  · rw [hin j] at hj
    cases hj
  · rw [hin j] at hj
    cases hj

omit [DecidableEq ι] in
/-- While one thread is inside, all others are outside and between no
releases. -/
theorem Inv.others {s : State ι} (h : Inv s) {i : ℕ} (hi : (s.pc i).isInside = true) (j : ℕ)
    (hj : j ≠ i) : (s.pc j).isInside = false ∧ (s.pc j).isReleased = false := by
  constructor
  · by_contra hin
    rw [Bool.not_eq_false] at hin
    exact hj (h.exclusive j i hin hi)
  · by_contra hrel
    rw [Bool.not_eq_false] at hrel
    rw [h.window j i hrel] at hi
    cases hi

/-- Nobody is inside but possibly the thread that is about to release. -/
theorem Inv.release_alone {s t : State ι} (h : Inv s) {i : ℕ} (hs : step s (.release i) = some t)
    (j : ℕ) (hj : j ≠ i) : (s.pc j).isInside = false := by
  simp only [step] at hs
  split at hs
  · rename_i hpc
    exact (h.others (by simp [hpc, Pc.isInside]) j hj).1
  · rename_i hpc
    exact h.window i j (by simp [hpc, Pc.isReleased])
  · cases hs

/-- Every step outside the window between two releases keeps the invariant. -/
theorem inv_step (s : State ι) (a : Action ι) (t : State ι) (h : Inv s) (ha : OutsideWindow s a)
    (hs : step s a = some t) : Inv t := by
  have hlocked : ∀ i, (∃ j, j ≠ i ∧ (s.pc j).isInside = true) → s.pools.pool.spinlock = true :=
    fun i ⟨j, _, hj⟩ => h.locked j hj
  cases a with
  | call i op blocking =>
    simp only [step] at hs
    split at hs
    · split at hs
      · cases hs
        exact h.move_out rfl rfl (hlocked i)
      · cases hs
        exact h
    · cases hs
  | acquire i =>
    simp only [step] at hs
    split at hs
    · split at hs
      · rename_i hgot
        cases hs
        have hfree : s.pools.pool.spinlock = false := by
          by_contra hl
          simp [uvisorSpinTrylock, hl] at hgot
        refine Inv.move_in rfl (fun j _ => ⟨?_, ha j⟩) ?_
        · by_contra hin
          rw [Bool.not_eq_false] at hin
          rw [h.locked j hin] at hfree
          cases hfree
        · simp [PoolQueues.setLock, uvisorSpinTrylock, hfree]
      · split at hs
        · cases hs
          exact h
        · cases hs
          exact h.move_out rfl rfl (hlocked i)
    · cases hs
  | run i =>
    simp only [step] at hs
    split at hs
    · rename_i op hpc
      rw [Option.map_eq_some_iff] at hs
      obtain ⟨out, hout, rfl⟩ := hs
      have hi : (s.pc i).isInside = true := by simp [hpc, Pc.isInside]
      have hlock := criticalSection_spinlock hout
      cases hearly : out.1 with
      | true => exact Inv.move_released fun j hj => (h.others hi j hj).1
      | false =>
        rw [hearly, if_neg Bool.false_ne_true, h.locked i hi] at hlock
        exact Inv.move_in rfl (h.others hi) hlock
    · cases hs
  | release i =>
    have halone := h.release_alone hs
    have hout : ∀ m : PoolQueues ι, Inv (s.move m i .idle) := by
      intro m
      refine h.move_out rfl rfl ?_
      rintro ⟨j, hj, hin⟩
      rw [halone j hj] at hin
      cases hin
    simp only [step] at hs
    split at hs
    · cases hs
      exact hout _
    · cases hs
      exact hout _
    · cases hs

/-- In every run that acquires no lock between the two releases of a find, one
thread at most is inside a critical section, and no step that releases the
lock is taken while another thread is inside. -/
theorem mutual_exclusion {s : State ι} (h : Reachable Initial step OutsideWindow s) :
    (∀ i j, (s.pc i).isInside = true → (s.pc j).isInside = true → i = j) ∧
      ∀ i a t, a = .run i ∨ a = .release i → step s a = some t →
        ∀ j, j ≠ i → (s.pc j).isInside = false := by
  have hinv : Inv s := h.invariant Inv inv_initial inv_step
  refine ⟨hinv.exclusive, ?_⟩
  rintro i a t (rfl | rfl) hs j hj
  · simp only [step] at hs
    split at hs
    · rename_i hpc
      exact (hinv.others (by simp [hpc, Pc.isInside]) j hj).1
    · cases hs
  · exact hinv.release_alone hs j hj

/-- A pool of two slots, just initialized, and its threads. -/
def freshState : State Unit :=
  let queue : Queue := ⟨0, 0, 0, 0⟩
  let pool : Pool := ⟨0, 0, 0, 0, 0, 0, false, fun _ => ⟨0, 0⟩⟩
  ⟨(uvisorPoolQueueInit ⟨pool, fun _ => queue⟩ () 0 0 0 2).2, fun _ => .idle⟩

theorem freshState_initial : Initial freshState := ⟨rfl, fun _ => rfl⟩

/-- Once thread 0 has acquired the lock of the fresh pool, nobody else is
inside. -/
theorem mutual_exclusion_acquired :
    ∃ s : State Unit, (s.pc 0).isInside = true ∧ ∀ j, (s.pc j).isInside = true → 0 = j := by
  let s₁ : State Unit := freshState.move freshState.pools 0 (.trying .allocate true)
  let s₂ : State Unit := s₁.move (freshState.pools.setLock true) 0 (.inside .allocate)
  have hcall : Reachable Initial step OutsideWindow s₁ :=
    Reachable.step (a := .call 0 .allocate true) (Reachable.start freshState_initial) trivial rfl
  have hwindow : OutsideWindow s₁ (.acquire 0) := by
    intro j
    cases j with
    | zero => rfl
    | succ j => rfl
  have hacquire : Reachable Initial step OutsideWindow s₂ :=
    Reachable.step (a := .acquire 0) hcall hwindow rfl
  exact ⟨s₂, rfl, fun j hj => (mutual_exclusion hacquire).1 0 j rfl hj⟩

/-- Thread 0 queues a slot, finds it and releases the lock; thread 1 acquires
it; thread 0 releases it again; thread 2 acquires it. -/
def intrusion : List (Action Unit) :=
  [.call 0 .allocate true, .acquire 0, .run 0, .release 0,
    .call 0 (.enqueue () 0) true, .acquire 0, .run 0, .release 0,
    .call 0 (.findFirst () fun _ => true) true, .acquire 0, .run 0,
    .call 1 (.dequeueFirst ()) true, .acquire 1,
    .release 0,
    .call 2 .allocate true, .acquire 2]

/-- Threads 1 and 2 are then both inside. -/
theorem intrusion_breaks_exclusion :
    ∃ s : State Unit, Reachable Initial step (fun _ _ => True) s ∧
      (s.pc 1).isInside = true ∧ (s.pc 2).isInside = true := by
  have hrun : ((exec step intrusion freshState).map fun s =>
      (s.pc 1).isInside && (s.pc 2).isInside) = some true := by decide
  rw [Option.map_eq_some_iff] at hrun
  obtain ⟨s, hs, hboth⟩ := hrun
  rw [Bool.and_eq_true] at hboth
  exact ⟨s, exec_reachable (Reachable.start freshState_initial) hs, hboth⟩

end Uvisor.PoolLocking
