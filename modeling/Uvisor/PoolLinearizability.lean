import Uvisor.Linearizability
import Uvisor.PoolRefinement

/-!
# Pool queues are linearizable

Threads call the operations of one pool and its queues at any time, in their
blocking and try forms, and the spinlock decides who runs its critical section
next. Whatever the threads see can be explained by one order of the calls in
which the list machine does them one after the other. Only a try form may also
report a failure and do nothing, which it does when it meets a held lock.
-/

namespace Uvisor.PoolLinearizability

open PoolQueue PoolInvariant PoolOperations PoolRefinement Execution Linearizability
open PoolLocking (Operation)

variable {ι : Type} [DecidableEq ι]

/-! ## The object -/

/-- An operation in its blocking or its try form. -/
structure Request (ι : Type) where
  /-- The operation. -/
  op : Operation ι
  /-- Whether it waits for the lock. -/
  blocking : Bool

/-- How a request may go. -/
inductive Goes (p : ListPool ι) : Request ι → ℕ → ListPool ι → Prop where
  /-- As the list machine says. -/
  | done (op : Operation ι) (blocking : Bool) (h : Admissible p op) :
      Goes p ⟨op, blocking⟩ (onLists p op).1 (onLists p op).2
  /-- The invalid slot is not enqueued. -/
  | ignored (name : ι) (blocking : Bool) :
      Goes p ⟨.enqueue name slotInvalid, blocking⟩ slotInvalid p
  /-- A try form that does not get the lock does nothing. -/
  | contended (op : Operation ι) : Goes p ⟨op, false⟩ slotInvalid p

/-! ## Runs -/

/-- What the critical section of an operation reports. -/
def sectionReport (m : PoolQueues ι) : Operation ι → Option ℕ
  | .allocate => some (allocateSection m).1
  | .enqueue _ slot => some slot
  | .free slot => some (freeSection slot m).1
  | .dequeue name slot => some (dequeueSection name slot m).1
  | .dequeueFirst name => some (tryDequeueFirst m name).1
  | .findFirst name query => (findFirst m name query).map Prod.fst

/-- The threads, with a record of what they do. -/
structure Run (ι : Type) where
  /-- The pool and the threads. -/
  threads : PoolLocking.State ι
  /-- Number of calls so far. -/
  calls : ℕ
  /-- Number of the last call of every thread, and what it was. -/
  current : ℕ → ℕ × Request ι
  /-- What the last critical section of every thread has reported. -/
  report : ℕ → ℕ
  /-- The record. -/
  log : List (Entry (Request ι) ℕ)

/-- Record a call. One that does not need the lock has its effect and returns
at once. -/
def Run.noteCall (r : Run ι) (threads : PoolLocking.State ι) (i : ℕ) (request : Request ι) :
    Run ι :=
  let called : Run ι :=
    { r with
      threads
      calls := r.calls+1
      current := Function.update r.current i (r.calls, request)
      log := r.log ++ [.visible (.invoke r.calls request)] }
  if request.op.needsLock r.threads.pools then called
  else
    { called with
      log := called.log ++ [.effect ⟨r.calls, request, slotInvalid⟩] ++
        [.visible (.respond r.calls slotInvalid)] }

/-- Record an attempt at the lock. A try form that does not get it gives up. -/
def Run.noteAcquire (r : Run ι) (threads : PoolLocking.State ι) (i : ℕ) : Run ι :=
  let call := r.current i
  if r.threads.pools.pool.spinlock && !call.2.blocking then
    { r with
      threads
      log := r.log ++ [.effect ⟨call.1, call.2, slotInvalid⟩] ++
        [.visible (.respond call.1 slotInvalid)] }
  else {r with threads}

/-- One step of the threads, and the record of it. -/
def step (r : Run ι) (a : PoolLocking.Action ι) : Option (Run ι) :=
  (PoolLocking.step r.threads a).bind fun threads =>
    match a with
    | .call i op blocking => some (r.noteCall threads i ⟨op, blocking⟩)
    | .acquire i => some (r.noteAcquire threads i)
    | .run i =>
      (sectionReport r.threads.pools (r.current i).2.op).map fun report =>
        { r with
          threads
          report := Function.update r.report i report
          log := r.log ++ [.effect ⟨(r.current i).1, (r.current i).2, report⟩] }
    | .release i =>
      some {r with threads, log := r.log ++ [.visible (.respond (r.current i).1 (r.report i))]}

/-- The threads start with a well-formed pool that looks like a list pool, and
with an empty record. -/
structure Initial (p : ListPool ι) (r : Run ι) : Prop where
  /-- Nobody uses the pool. -/
  threads : PoolLocking.Initial r.threads
  /-- The pool is well formed. -/
  wellFormed : WellFormed r.threads.pools
  /-- Its lists. -/
  lists : listPool r.threads.pools = p
  /-- Nothing has been recorded. -/
  log : r.log = []

/-- No lock is acquired between the two releases of a find, and critical
sections are entered only as the owners of slots may do. -/
def Permitted (r : Run ι) (a : PoolLocking.Action ι) : Prop :=
  PoolLocking.OutsideWindow r.threads a ∧
    ∀ i, a = .run i → Admissible (listPool r.threads.pools) (r.current i).2.op

/-! ## The lock does not matter for the lists -/

section Locks

variable {m : PoolQueues ι}

omit [DecidableEq ι] in
theorem slotsFrom_setLock (pool : Pool) (acquired : Bool) (fuel slot : ℕ) :
    slotsFrom (pool.setLock acquired) fuel slot = slotsFrom pool fuel slot := by
  induction fuel generalizing slot with
  | zero => rfl
  | succ fuel ih => simp only [slotsFrom, setLock_next, ih]

omit [DecidableEq ι] in
theorem freeSlots_setLock (m : PoolQueues ι) (acquired : Bool) :
    freeSlots (m.setLock acquired) = freeSlots m :=
  slotsFrom_setLock m.pool acquired 257 m.pool.firstFree

omit [DecidableEq ι] in
theorem queueSlots_setLock (m : PoolQueues ι) (acquired : Bool) :
    queueSlots (m.setLock acquired) = queueSlots m :=
  funext fun name => slotsFrom_setLock m.pool acquired 257 (m.queue name).head

omit [DecidableEq ι] in
@[simp] theorem listPool_setLock (m : PoolQueues ι) (acquired : Bool) :
    listPool (m.setLock acquired) = listPool m := by
  unfold listPool
  rw [freeSlots_setLock, queueSlots_setLock]
  exact congrArg (fun num => ListPool.mk num (freeSlots m) (queueSlots m)) (setLock_num _ _)

omit [DecidableEq ι] in
theorem wellFormed_setLock (acquired : Bool) : WellFormed (m.setLock acquired) ↔ WellFormed m := by
  unfold WellFormed
  rw [freeSlots_setLock, queueSlots_setLock]
  exact ⟨fun h => Represents.setLock h m.pool.spinlock, fun h => Represents.setLock h acquired⟩

omit [DecidableEq ι] in
theorem needsLock_setLock (m : PoolQueues ι) (acquired : Bool) (op : Operation ι) :
    op.needsLock (m.setLock acquired) = op.needsLock m := by
  cases op <;> rfl

omit [DecidableEq ι] in
theorem setLock_setLock (m : PoolQueues ι) (acquired acquired' : Bool) :
    (m.setLock acquired).setLock acquired' = m.setLock acquired' := rfl

omit [DecidableEq ι] in
theorem setLock_of_held (hl : m.pool.spinlock = true) : m.setLock true = m := by
  rw [← hl]
  rfl

/-- On a free lock an operation that needs it is its critical section. -/
theorem blocking_eq_section (hl : m.pool.spinlock = false) {op : Operation ι}
    (hop : op.needsLock m = true) :
    blocking m op = (sectionReport (m.setLock true) op).bind fun report =>
      (op.criticalSection (m.setLock true)).map fun out => (report, out.2.unlock) := by
  cases op with
  | allocate =>
    simp [blocking, sectionReport, Operation.criticalSection, uvisorPoolAllocate, withLock,
      uvisorSpinLock, uvisorSpinTrylock, hl]
  | enqueue name slot =>
    simp only [Operation.needsLock, decide_eq_true_eq] at hop
    simp [blocking, sectionReport, Operation.criticalSection, uvisorPoolQueueEnqueue, withLock,
      uvisorSpinLock, uvisorSpinTrylock, hl, hop]
  | free slot =>
    simp only [Operation.needsLock, decide_eq_true_eq] at hop
    simp [blocking, sectionReport, Operation.criticalSection, uvisorPoolFree, withLock,
      uvisorSpinLock, uvisorSpinTrylock, hl, if_neg (Nat.not_le.mpr hop)]
  | dequeue name slot =>
    simp only [Operation.needsLock, decide_eq_true_eq] at hop
    simp [blocking, sectionReport, Operation.criticalSection, uvisorPoolQueueDequeue, withLock,
      uvisorSpinLock, uvisorSpinTrylock, hl, if_neg (Nat.not_le.mpr hop)]
  | dequeueFirst name =>
    simp [blocking, sectionReport, Operation.criticalSection, uvisorPoolQueueDequeueFirst,
      withLock, uvisorSpinLock, uvisorSpinTrylock, hl]
  | findFirst name query =>
    cases hfound : findFirst (m.setLock true) name query <;>
      simp [blocking, sectionReport, Operation.criticalSection, uvisorPoolQueueFindFirst,
        uvisorSpinLock, uvisorSpinTrylock, hl, hfound]

/-- What a critical section does under a held lock is what the list machine
does. -/
theorem section_refines (hw : WellFormed m) (hl : m.pool.spinlock = true) {op : Operation ι}
    (hop : op.needsLock m = true) (hadm : Admissible (listPool m) op) {report : ℕ}
    {out : Bool × PoolQueues ι} (hreport : sectionReport m op = some report)
    (hout : op.criticalSection m = some out) :
    report = (onLists (listPool m) op).1 ∧ listPool out.2 = (onLists (listPool m) op).2 ∧
      WellFormed out.2 := by
  have hfree : (m.setLock false).pool.spinlock = false := setLock_spinlock _ _
  have hadm' : Admissible (listPool (m.setLock false)) op := by rwa [listPool_setLock]
  obtain ⟨report', m', hblocking, hr⟩ :=
    blocking_refines ((wellFormed_setLock false).mpr hw) hfree hadm'
  rw [blocking_eq_section hfree (by rwa [needsLock_setLock]), setLock_setLock,
    setLock_of_held hl, hreport, hout] at hblocking
  obtain ⟨rfl, rfl⟩ := Prod.mk.inj (Option.some.inj hblocking)
  have hreport := hr.report_eq
  have hlists := hr.lists_eq
  have hwell := hr.wellFormed
  rw [listPool_setLock] at hreport hlists
  rw [PoolQueues.unlock, listPool_setLock] at hlists
  rw [PoolQueues.unlock, wellFormed_setLock] at hwell
  exact ⟨hreport, hlists, hwell⟩

/-- An operation that does not need the lock reports the invalid slot. -/
theorem goes_refused (hw : WellFormed m) {op : Operation ι} (isBlocking : Bool)
    (hop : op.needsLock m = false) : Goes (listPool m) ⟨op, isBlocking⟩ slotInvalid (listPool m) := by
  cases op with
  | enqueue name slot =>
    simp only [Operation.needsLock, decide_eq_false_iff_not, not_not] at hop
    subst hop
    exact .ignored name isBlocking
  | free slot =>
    simp only [Operation.needsLock, decide_eq_false_iff_not, not_lt] at hop
    have hreport : onLists (listPool m) (.free slot) = (slotInvalid, listPool m) := if_pos hop
    have hdone := Goes.done (p := listPool m) (.free slot) isBlocking
      fun name hslot => absurd (hw.lists_lt name slot hslot) (Nat.not_lt.mpr hop)
    rwa [hreport] at hdone
  | dequeue name slot =>
    simp only [Operation.needsLock, decide_eq_false_iff_not, not_lt] at hop
    have hreport : onLists (listPool m) (.dequeue name slot) = (slotInvalid, listPool m) :=
      if_pos hop
    have hdone := Goes.done (p := listPool m) (.dequeue name slot) isBlocking
      fun other _ hslot => absurd (hw.lists_lt other slot hslot) (Nat.not_lt.mpr hop)
    rwa [hreport] at hdone
  | allocate => cases hop
  | dequeueFirst name => cases hop
  | findFirst name query => cases hop

end Locks

/-! ## Steps of the threads -/

section Steps

variable {s t : PoolLocking.State ι} {i : ℕ}

/-- A call of an idle thread. -/
theorem step_call {op : Operation ι} {isBlocking : Bool}
    (h : PoolLocking.step s (.call i op isBlocking) = some t) :
    s.pc i = .idle ∧
      (op.needsLock s.pools = true ∧ t = s.move s.pools i (.trying op isBlocking) ∨
        op.needsLock s.pools = false ∧ t = s) := by
  simp only [PoolLocking.step] at h
  split at h
  · rename_i hpc
    refine ⟨hpc, ?_⟩
    split at h
    · rename_i hneeds
      exact .inl ⟨hneeds, (Option.some.inj h).symm⟩
    · rename_i hneeds
      exact .inr ⟨Bool.not_eq_true _ ▸ hneeds, (Option.some.inj h).symm⟩
  · cases h

/-- An attempt at the lock, which is free, or waited for, or given up. -/
theorem step_acquire (h : PoolLocking.step s (.acquire i) = some t) :
    ∃ op isBlocking, s.pc i = .trying op isBlocking ∧
      (s.pools.pool.spinlock = false ∧ t = s.move (s.pools.setLock true) i (.inside op) ∨
        s.pools.pool.spinlock = true ∧ isBlocking = true ∧ t = s ∨
        s.pools.pool.spinlock = true ∧ isBlocking = false ∧ t = s.move s.pools i .idle) := by
  simp only [PoolLocking.step] at h
  split at h
  · rename_i op isBlocking hpc
    refine ⟨op, isBlocking, hpc, ?_⟩
    cases hl : s.pools.pool.spinlock with
    | false =>
      rw [hl] at h
      exact .inl ⟨rfl, (Option.some.inj h).symm⟩
    | true =>
      rw [hl] at h
      cases isBlocking with
      | false => exact .inr (.inr ⟨rfl, rfl, (Option.some.inj h).symm⟩)
      | true => exact .inr (.inl ⟨rfl, rfl, (Option.some.inj h).symm⟩)
  · cases h

/-- A critical section. -/
theorem step_run (h : PoolLocking.step s (.run i) = some t) :
    ∃ op out, s.pc i = .inside op ∧ op.criticalSection s.pools = some out ∧
      t = s.move out.2 i (if out.1 then .released else .leaving) := by
  simp only [PoolLocking.step] at h
  split at h
  · rename_i op hpc
    obtain ⟨out, hout, rfl⟩ := Option.map_eq_some_iff.mp h
    exact ⟨op, out, hpc, hout, rfl⟩
  · cases h

/-- A release. -/
theorem step_release (h : PoolLocking.step s (.release i) = some t) :
    (s.pc i = .leaving ∨ s.pc i = .released) ∧ t = s.move s.pools.unlock i .idle := by
  simp only [PoolLocking.step] at h
  split at h
  · rename_i hpc
    exact ⟨.inl hpc, (Option.some.inj h).symm⟩
  · rename_i hpc
    exact ⟨.inr hpc, (Option.some.inj h).symm⟩
  · cases h

end Steps

/-! ## The invariant -/

/-- Whether a thread has called an operation that has not had its effect yet. -/
def isWaiting : PoolLocking.Pc ι → Bool
  | .trying _ _ => true
  | .inside _ => true
  | _ => false

/-- A call that has not had its effect yet. -/
structure Waits (m : PoolQueues ι) (log : List (Entry (Request ι) ℕ)) (call : ℕ × Request ι) :
    Prop where
  /-- It has been recorded. -/
  invoked : .invoke call.1 call.2 ∈ history log
  /-- Its effect has not. -/
  fresh : ∀ other ∈ effects log, other.id ≠ call.1
  /-- It needs the lock. -/
  needsLock : call.2.op.needsLock m = true

/-- What has been recorded of a thread fits where the thread is. -/
def Fits (m : PoolQueues ι) (log : List (Entry (Request ι) ℕ)) (call : ℕ × Request ι)
    (report : ℕ) : PoolLocking.Pc ι → Prop
  | .idle => True
  | .trying op isBlocking => call.2 = ⟨op, isBlocking⟩ ∧ Waits m log call
  | .inside op => call.2.op = op ∧ Waits m log call
  | .leaving => ∃ other ∈ effects log, other.id = call.1 ∧ other.res = report
  | .released => ∃ other ∈ effects log, other.id = call.1 ∧ other.res = report

/-- What holds in every run. -/
structure Inv (p : ListPool ι) (r : Run ι) : Prop where
  /-- The threads exclude each other. -/
  threads : PoolLocking.Inv r.threads
  /-- The pool is well formed. -/
  wellFormed : WellFormed r.threads.pools
  /-- Effects come between calls and returns. -/
  recorded : Recorded r.log
  /-- In the order of their effects the calls lead to the lists of the pool. -/
  legal : Legal Goes p (effects r.log) (listPool r.threads.pools)
  /-- Calls are numbered. -/
  calls : ∀ id request, .invoke id request ∈ history r.log → id < r.calls
  /-- The record fits the threads. -/
  fits : ∀ i, Fits r.threads.pools r.log (r.current i) (r.report i) (r.threads.pc i)
  /-- Calls that wait have different numbers. -/
  apart : ∀ i j, i ≠ j → isWaiting (r.threads.pc i) = true → isWaiting (r.threads.pc j) = true →
    (r.current i).1 ≠ (r.current j).1

section Invariant

variable {p : ListPool ι} {r : Run ι} {i : ℕ}

omit [DecidableEq ι] in
theorem Fits.waits {m : PoolQueues ι} {log : List (Entry (Request ι) ℕ)} {call : ℕ × Request ι}
    {report : ℕ} {pc : PoolLocking.Pc ι} (h : Fits m log call report pc)
    (hwaiting : isWaiting pc = true) : Waits m log call := by
  cases pc with
  | trying op isBlocking => exact h.2
  | inside op => exact h.2
  | idle => cases hwaiting
  | leaving => cases hwaiting
  | released => cases hwaiting

omit [DecidableEq ι] in
/-- More is recorded of other threads. -/
theorem Fits.append {m m' : PoolQueues ι} {log extra : List (Entry (Request ι) ℕ)}
    {call : ℕ × Request ι} {report : ℕ} {pc : PoolLocking.Pc ι} (h : Fits m log call report pc)
    (hnum : m'.pool.num = m.pool.num)
    (hextra : isWaiting pc = true → ∀ other ∈ effects extra, other.id ≠ call.1) :
    Fits m' (log ++ extra) call report pc := by
  have hwaits : isWaiting pc = true → Waits m log call → Waits m' (log ++ extra) call := by
    rintro hwaiting ⟨hinvoked, hfresh, hneeds⟩
    refine ⟨?_, fun other hother => ?_, ?_⟩
    · rw [history_append]
      exact List.mem_append_left _ hinvoked
    · rw [effects_append] at hother
      rcases List.mem_append.mp hother with hold | hnew
      · exact hfresh other hold
      · exact hextra hwaiting other hnew
    · rw [← hneeds]
      cases call.2.op <;> simp only [Operation.needsLock, hnum]
  have hdone : (∃ other ∈ effects log, other.id = call.1 ∧ other.res = report) →
      ∃ other ∈ effects (log ++ extra), other.id = call.1 ∧ other.res = report := by
    rintro ⟨other, hother, hres⟩
    rw [effects_append]
    exact ⟨other, List.mem_append_left _ hother, hres⟩
  cases pc with
  | idle => trivial
  | trying op isBlocking => exact ⟨h.1, hwaits rfl h.2⟩
  | inside op => exact ⟨h.1, hwaits rfl h.2⟩
  | leaving => exact hdone h
  | released => exact hdone h

/-- A waiting call was recorded, so its number has been given. -/
theorem Inv.current_lt (h : Inv p r) (hwaiting : isWaiting (r.threads.pc i) = true) :
    (r.current i).1 < r.calls :=
  h.calls _ _ ((h.fits i).waits hwaiting).invoked

/-- One thread has moved, and the record has grown. -/
theorem Inv.moved (h : Inv p r) {r' : Run ι} {m : PoolQueues ι} {pc : PoolLocking.Pc ι}
    {extra : List (Entry (Request ι) ℕ)} (hthreads : r'.threads = r.threads.move m i pc)
    (hinv : PoolLocking.Inv r'.threads) (hwell : WellFormed m)
    (hnum : m.pool.num = r.threads.pools.pool.num) (hlog : r'.log = r.log ++ extra)
    (hrecorded : Recorded (r.log ++ extra))
    (hlegal : Legal Goes p (effects (r.log ++ extra)) (listPool m))
    (hcalls : ∀ id request, .invoke id request ∈ history (r.log ++ extra) → id < r'.calls)
    (hcurrent : ∀ j, j ≠ i → r'.current j = r.current j)
    (hreport : ∀ j, j ≠ i → r'.report j = r.report j)
    (hextra : ∀ j, j ≠ i → isWaiting (r.threads.pc j) = true → ∀ other ∈ effects extra,
      other.id ≠ (r.current j).1)
    (hown : Fits m (r.log ++ extra) (r'.current i) (r'.report i) pc)
    (hapart : isWaiting pc = true → ∀ j, j ≠ i → isWaiting (r.threads.pc j) = true →
      (r'.current i).1 ≠ (r.current j).1) : Inv p r' := by
  have hpc : ∀ j, j ≠ i → r'.threads.pc j = r.threads.pc j := fun j hj => by
    rw [hthreads]
    exact Function.update_of_ne hj _ _
  have hself : r'.threads.pc i = pc := by
    rw [hthreads]
    exact Function.update_self _ _ _
  have hpools : r'.threads.pools = m := by
    rw [hthreads]
    rfl
  refine ⟨hinv, hpools ▸ hwell, hlog ▸ hrecorded, ?_, fun id request hmem => ?_, fun j => ?_,
    fun j k hjk hj hk => ?_⟩
  · rw [hlog, hpools]
    exact hlegal
  · exact hcalls id request (hlog ▸ hmem)
  · rw [hpools, hlog]
    by_cases hj : j = i
    · subst hj
      rw [hself]
      exact hown
    · rw [hpc j hj, hcurrent j hj, hreport j hj]
      exact (h.fits j).append hnum (hextra j hj)
  · by_cases hji : j = i
    · subst hji
      have hkj : k ≠ j := Ne.symm hjk
      rw [hcurrent k hkj]
      exact hapart (hself ▸ hj) k hkj (hpc k hkj ▸ hk)
    · by_cases hki : k = i
      · subst hki
        rw [hcurrent j hji]
        exact (hapart (hself ▸ hk) j hji (hpc j hji ▸ hj)).symm
      · rw [hcurrent j hji, hcurrent k hki]
        exact h.apart j k hjk (hpc j hji ▸ hj) (hpc k hki ▸ hk)

omit [DecidableEq ι] in
/-- A thread that stays where it is. -/
theorem move_self (s : PoolLocking.State ι) (i : ℕ) : s.move s.pools i (s.pc i) = s := by
  unfold PoolLocking.State.move
  rw [Function.update_eq_self]

/-- A call has a number that no call had before. -/
theorem Inv.invoke_follows (h : Inv p r) (request : Request ι) :
    Follows r.log (.visible (.invoke r.calls request)) :=
  fun op hmem => absurd (h.calls _ op hmem) (Nat.lt_irrefl _)

/-- No call that waits has the number of the next one. -/
theorem Inv.current_ne_calls (h : Inv p r) {j : ℕ}
    (hwaiting : isWaiting (r.threads.pc j) = true) : r.calls ≠ (r.current j).1 :=
  (h.current_lt hwaiting).ne'

theorem Inv.call (h : Inv p r) {op : Operation ι} {isBlocking : Bool} {t : PoolLocking.State ι}
    (hs : PoolLocking.step r.threads (.call i op isBlocking) = some t) :
    Inv p (r.noteCall t i ⟨op, isBlocking⟩) := by
  have hinv := PoolLocking.inv_step r.threads (.call i op isBlocking) t h.threads trivial hs
  obtain ⟨hpc, ⟨hneeds, rfl⟩ | ⟨hneeds, rfl⟩⟩ := step_call hs
  · -- The call waits for the lock.
    have hnote : r.noteCall (r.threads.move r.threads.pools i (.trying op isBlocking)) i
        ⟨op, isBlocking⟩ =
        { r with
          threads := r.threads.move r.threads.pools i (.trying op isBlocking)
          calls := r.calls+1
          current := Function.update r.current i (r.calls, ⟨op, isBlocking⟩)
          log := r.log ++ [.visible (.invoke r.calls ⟨op, isBlocking⟩)] } := if_pos hneeds
    rw [hnote]
    refine h.moved rfl hinv h.wellFormed rfl rfl (h.recorded.snoc (h.invoke_follows _)) ?_
      (fun id request hmem => ?_) (fun j hj => Function.update_of_ne hj _ _) (fun _ _ => rfl)
      (fun _ _ _ other hother => absurd hother List.not_mem_nil) ?_ (fun _ j _ hwaiting => ?_)
    · simpa using h.legal
    · rw [history_append] at hmem
      rcases List.mem_append.mp hmem with hold | hnew
      · exact Nat.lt_succ_of_lt (h.calls id request hold)
      · cases List.mem_singleton.mp hnew
        exact Nat.lt_succ_self _
    · simp only [Function.update_self]
      refine ⟨rfl, ?_, fun other hother => ?_, hneeds⟩
      · rw [history_append]
        exact List.mem_append_right _ List.mem_cons_self
      · simp only [effects_append, effects_visible, List.append_nil] at hother
        exact (h.calls _ _ (h.recorded.invoked hother)).ne
    · simp only [Function.update_self]
      exact h.current_ne_calls hwaiting
  · -- The call returns at once.
    have hnote : r.noteCall r.threads i ⟨op, isBlocking⟩ =
        { r with
          calls := r.calls+1
          current := Function.update r.current i (r.calls, ⟨op, isBlocking⟩)
          log := r.log ++ [.visible (.invoke r.calls ⟨op, isBlocking⟩)] ++
            [.effect ⟨r.calls, ⟨op, isBlocking⟩, slotInvalid⟩] ++
            [.visible (.respond r.calls slotInvalid)] } :=
      if_neg (by rw [hneeds]; exact Bool.false_ne_true)
    have hinvoked := h.recorded.snoc (h.invoke_follows ⟨op, isBlocking⟩)
    have heffect : Follows (r.log ++ [.visible (.invoke r.calls ⟨op, isBlocking⟩)])
        (.effect ⟨r.calls, ⟨op, isBlocking⟩, slotInvalid⟩) := by
      refine ⟨?_, fun other hother => ?_⟩
      · rw [history_append]
        exact List.mem_append_right _ List.mem_cons_self
      · simp only [effects_append, effects_visible, List.append_nil] at hother
        exact (h.calls _ _ (h.recorded.invoked hother)).ne
    rw [hnote]
    refine h.moved (move_self r.threads i).symm h.threads h.wellFormed rfl
      ((List.append_assoc _ _ _).trans (List.append_assoc _ _ _))
      (by simpa using hinvoked.completed heffect) ?_ (fun id request hmem => ?_)
      (fun j hj => Function.update_of_ne hj _ _) (fun _ _ => rfl)
      (fun j _ hwaiting other hother => ?_) (by rw [hpc]; trivial)
      (fun hwaiting => by rw [hpc] at hwaiting; cases hwaiting)
    · have hlegal : Legal Goes p (effects r.log ++ [⟨r.calls, ⟨op, isBlocking⟩, slotInvalid⟩])
          (listPool r.threads.pools) := h.legal.snoc (goes_refused h.wellFormed isBlocking hneeds)
      simpa [effects] using hlegal
    · rw [history_append] at hmem
      rcases List.mem_append.mp hmem with hold | hnew
      · exact Nat.lt_succ_of_lt (h.calls id request hold)
      · have hid : id = r.calls := by
          simp [history] at hnew
          exact hnew.1
        exact hid ▸ Nat.lt_succ_self _
    · have hcall : other = ⟨r.calls, ⟨op, isBlocking⟩, slotInvalid⟩ := by
        simpa [effects] using hother
      rw [hcall]
      exact h.current_ne_calls hwaiting

theorem Inv.acquire (h : Inv p r) {t : PoolLocking.State ι}
    (hwindow : PoolLocking.OutsideWindow r.threads (.acquire i))
    (hs : PoolLocking.step r.threads (.acquire i) = some t) : Inv p (r.noteAcquire t i) := by
  have hinv := PoolLocking.inv_step r.threads (.acquire i) t h.threads hwindow hs
  obtain ⟨op, isBlocking, hpc, hcases⟩ := step_acquire hs
  have hfits := h.fits i
  rw [hpc] at hfits
  obtain ⟨hrequest, hwaits⟩ := hfits
  have happart : ∀ j, j ≠ i → isWaiting (r.threads.pc j) = true →
      (r.current i).1 ≠ (r.current j).1 := fun j hj hwaiting =>
    h.apart i j (Ne.symm hj) (by rw [hpc]; rfl) hwaiting
  rcases hcases with ⟨hl, rfl⟩ | ⟨hl, rfl, rfl⟩ | ⟨hl, rfl, rfl⟩
  · -- The lock is free.
    have hnote : r.noteAcquire (r.threads.move (r.threads.pools.setLock true) i (.inside op)) i =
        {r with threads := r.threads.move (r.threads.pools.setLock true) i (.inside op)} := by
      simp [Run.noteAcquire, hl]
    rw [hnote]
    refine h.moved rfl hinv ((wellFormed_setLock true).mpr h.wellFormed) rfl
      (List.append_nil _).symm ?_ ?_ ?_ (fun _ _ => rfl) (fun _ _ => rfl)
      (fun _ _ _ other hother => absurd hother List.not_mem_nil) ?_ fun _ => happart
    · rw [List.append_nil]
      exact h.recorded
    · rw [List.append_nil, listPool_setLock]
      exact h.legal
    · rw [List.append_nil]
      exact h.calls
    · rw [List.append_nil]
      refine ⟨congrArg Request.op hrequest, hwaits.invoked, hwaits.fresh, ?_⟩
      rw [needsLock_setLock]
      exact hwaits.needsLock
  · -- The blocking form tries again.
    have hnote : r.noteAcquire r.threads i = r := by
      simp [Run.noteAcquire, hl, hrequest]
    rw [hnote]
    exact h
  · -- The try form gives up.
    have hnote : r.noteAcquire (r.threads.move r.threads.pools i .idle) i =
        { r with
          threads := r.threads.move r.threads.pools i .idle
          log := r.log ++ [.effect ⟨(r.current i).1, (r.current i).2, slotInvalid⟩] ++
            [.visible (.respond (r.current i).1 slotInvalid)] } := by
      simp [Run.noteAcquire, hl, hrequest]
    have heffect : Follows r.log (.effect ⟨(r.current i).1, (r.current i).2, slotInvalid⟩) :=
      ⟨hwaits.invoked, hwaits.fresh⟩
    have hgoes : Goes (listPool r.threads.pools) (r.current i).2 slotInvalid
        (listPool r.threads.pools) := by
      rw [hrequest]
      exact .contended op
    rw [hnote]
    refine h.moved rfl hinv h.wellFormed rfl (List.append_assoc _ _ _)
      (by simpa using h.recorded.completed heffect) ?_ (fun id request hmem => ?_)
      (fun _ _ => rfl) (fun _ _ => rfl) (fun j hj hwaiting other hother => ?_) trivial
      fun hwaiting => by cases hwaiting
    · have hlegal : Legal Goes p (effects r.log ++
          [⟨(r.current i).1, (r.current i).2, slotInvalid⟩]) (listPool r.threads.pools) :=
        h.legal.snoc hgoes
      simpa [effects] using hlegal
    · refine h.calls id request ?_
      simpa [history] using hmem
    · have hcall : other = ⟨(r.current i).1, (r.current i).2, slotInvalid⟩ := by
        simpa [effects] using hother
      rw [hcall]
      exact happart j hj hwaiting

theorem Inv.run (h : Inv p r) {t : PoolLocking.State ι} {report : ℕ}
    (hadm : Admissible (listPool r.threads.pools) (r.current i).2.op)
    (hs : PoolLocking.step r.threads (.run i) = some t)
    (hreport : sectionReport r.threads.pools (r.current i).2.op = some report) :
    Inv p { r with
      threads := t
      report := Function.update r.report i report
      log := r.log ++ [.effect ⟨(r.current i).1, (r.current i).2, report⟩] } := by
  have hinv := PoolLocking.inv_step r.threads (.run i) t h.threads trivial hs
  obtain ⟨op, out, hpc, hout, rfl⟩ := step_run hs
  have hfits := h.fits i
  rw [hpc] at hfits
  obtain ⟨rfl, hwaits⟩ := hfits
  have hlocked : r.threads.pools.pool.spinlock = true :=
    h.threads.locked i (by rw [hpc]; rfl)
  obtain ⟨hresult, hlists, hwell⟩ :=
    section_refines h.wellFormed hlocked hwaits.needsLock hadm hreport hout
  have hgoes : Goes (listPool r.threads.pools) (r.current i).2 report (listPool out.2) := by
    rw [hresult, hlists]
    exact .done _ _ hadm
  have hnum : out.2.pool.num = r.threads.pools.pool.num := by
    have hsame := congrArg ListPool.num hlists
    rwa [onLists_num] at hsame
  refine h.moved rfl hinv hwell hnum rfl (h.recorded.snoc ⟨hwaits.invoked, hwaits.fresh⟩) ?_ ?_
    (fun _ _ => rfl) (fun j hj => Function.update_of_ne hj _ _)
    (fun j hj hwaiting other hother => ?_) ?_ fun hwaiting => ?_
  · have hlegal : Legal Goes p (effects r.log ++ [⟨(r.current i).1, (r.current i).2, report⟩])
        (listPool out.2) := h.legal.snoc hgoes
    simpa [effects] using hlegal
  · intro id request hmem
    refine h.calls id request ?_
    simpa [history] using hmem
  · obtain rfl := List.mem_singleton.mp hother
    exact h.apart i j (Ne.symm hj) (by rw [hpc]; rfl) hwaiting
  · have hdone : ∃ other ∈ effects
        (r.log ++ [.effect ⟨(r.current i).1, (r.current i).2, report⟩]),
        other.id = (r.current i).1 ∧ other.res = Function.update r.report i report i := by
      refine ⟨⟨(r.current i).1, (r.current i).2, report⟩, ?_, rfl, ?_⟩
      · rw [effects_append]
        exact List.mem_append_right _ List.mem_cons_self
      · exact (Function.update_self i report r.report).symm
    split
    · exact hdone
    · exact hdone
  · split at hwaiting
    · cases hwaiting
    · cases hwaiting

theorem Inv.release (h : Inv p r) {t : PoolLocking.State ι}
    (hs : PoolLocking.step r.threads (.release i) = some t) :
    Inv p { r with
      threads := t
      log := r.log ++ [.visible (.respond (r.current i).1 (r.report i))] } := by
  have hinv := PoolLocking.inv_step r.threads (.release i) t h.threads trivial hs
  obtain ⟨hpc, rfl⟩ := step_release hs
  have hdone : ∃ other ∈ effects r.log, other.id = (r.current i).1 ∧ other.res = r.report i := by
    have hfits := h.fits i
    rcases hpc with hpc | hpc
    · rwa [hpc] at hfits
    · rwa [hpc] at hfits
  have hwell : WellFormed r.threads.pools.unlock := (wellFormed_setLock false).mpr h.wellFormed
  refine h.moved (i := i) rfl hinv hwell rfl rfl (h.recorded.snoc hdone) ?_ ?_ (fun _ _ => rfl)
    (fun _ _ => rfl) (fun _ _ _ other hother => absurd hother List.not_mem_nil) trivial
    fun hwaiting => by cases hwaiting
  · rw [PoolQueues.unlock, listPool_setLock]
    simpa [effects] using h.legal
  · intro id request hmem
    refine h.calls id request ?_
    simpa [history] using hmem

theorem inv_initial (h : Initial p r) : Inv p r := by
  refine ⟨PoolLocking.inv_initial _ h.threads, h.wellFormed, ?_, ?_, ?_, fun i => ?_,
    fun i j _ hi => ?_⟩
  · rw [h.log]
    exact .nil
  · rw [h.log, h.lists]
    exact .nil
  · rw [h.log]
    intro id request hmem
    cases hmem
  · rw [h.threads.2 i]
    trivial
  · rw [h.threads.2 i] at hi
    cases hi

theorem inv_step {a : PoolLocking.Action ι} {r' : Run ι} (h : Inv p r) (ha : Permitted r a)
    (hs : step r a = some r') : Inv p r' := by
  obtain ⟨t, ht, hs⟩ := Option.bind_eq_some_iff.mp hs
  cases a with
  | call i op isBlocking =>
    obtain rfl := Option.some.inj hs
    exact h.call ht
  | acquire i =>
    obtain rfl := Option.some.inj hs
    exact h.acquire ha.1 ht
  | run i =>
    obtain ⟨report, hreport, rfl⟩ := Option.map_eq_some_iff.mp hs
    exact h.run (ha.2 i rfl) ht hreport
  | release i =>
    obtain rfl := Option.some.inj hs
    exact h.release ht

end Invariant

/-! ## Two threads that allocate -/

/-- Nothing has happened to the fresh pool. -/
def freshRun : Run Bool :=
  ⟨⟨freshPool, fun _ => .idle⟩, 0, fun _ => (0, ⟨.allocate, true⟩), fun _ => 0, []⟩

theorem freshRun_initial : Initial (listPool freshPool) freshRun :=
  ⟨⟨rfl, fun _ => rfl⟩, Represents.wellFormed freshPool_represents, rfl, rfl⟩

/-- Threads 0 and 1 allocate; thread 0 holds the lock when thread 1 tries. -/
def contention : List (PoolLocking.Action Bool) :=
  [.call 0 .allocate true, .call 1 .allocate false, .acquire 0, .acquire 1]

/-- No thread stands between two releases. -/
theorem quiet_move {s : PoolLocking.State Bool} (h : ∀ j, (s.pc j).isReleased = false)
    (m : PoolQueues Bool) (i : ℕ) {pc : PoolLocking.Pc Bool} (hpc : pc.isReleased = false) (j : ℕ) :
    ((s.move m i pc).pc j).isReleased = false := by
  by_cases hj : j = i
  · subst hj
    simpa [PoolLocking.State.move] using hpc
  · simpa [PoolLocking.State.move, Function.update_of_ne hj] using h j

theorem contention_reachable {r : Run Bool} (h : exec step contention freshRun = some r) :
    Reachable (Initial (listPool freshPool)) step Permitted r := by
  obtain ⟨r₁, h₁, h⟩ := Option.bind_eq_some_iff.mp h
  obtain ⟨r₂, h₂, h⟩ := Option.bind_eq_some_iff.mp h
  obtain ⟨r₃, h₃, h⟩ := Option.bind_eq_some_iff.mp h
  obtain ⟨r₄, h₄, h⟩ := Option.bind_eq_some_iff.mp h
  cases h
  have hcall : ∀ (s : Run Bool) (i : ℕ) (isBlocking : Bool),
      Permitted s (.call i .allocate isBlocking) := fun _ _ _ => ⟨trivial, fun _ heq => nomatch heq⟩
  have hquiet : ∀ j, (freshRun.threads.pc j).isReleased = false := fun _ => rfl
  have hquiet₂ : ∀ j, (r₂.threads.pc j).isReleased = false := by
    cases h₁
    cases h₂
    exact quiet_move (quiet_move hquiet _ 0 rfl) _ 1 rfl
  have hquiet₃ : ∀ j, (r₃.threads.pc j).isReleased = false := by
    cases h₁
    cases h₂
    cases h₃
    exact quiet_move hquiet₂ _ 0 rfl
  have hacquire : ∀ (s : Run Bool) (i : ℕ), (∀ j, (s.threads.pc j).isReleased = false) →
      Permitted s (.acquire i) := fun _ _ hquiet => ⟨hquiet, fun _ heq => nomatch heq⟩
  have hcalled := ((Reachable.start freshRun_initial).step (hcall _ 0 true) h₁).step
    (hcall _ 1 false) h₂
  exact (hcalled.step (hacquire _ 0 hquiet₂) h₃).step (hacquire _ 1 hquiet₃) h₄

end Uvisor.PoolLinearizability
