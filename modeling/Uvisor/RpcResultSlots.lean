import Uvisor.RpcDrain
import Uvisor.RpcFootprint

/-!
# Where the slots of finished calls go

A pass of drain_result_queue takes a slot out of the done queue before it looks
at the caller. Only a result that the caller still waits for frees the slot.
With a well-formed pool and a free lock the drain always ends with an empty done
queue, and the slots of its refused results are neither queued nor free any more.
-/

namespace Uvisor.RpcResultSlots

open PoolQueue PoolInvariant PoolOperations Rpc RpcDescription RpcDrain RpcFootprint
  Execution

/-! ## Statement -/

/-- Box and slot that a finished message names as its caller. -/
def origin (msg : Message) : ℕ × ℕ := (msg.otherBoxId.toNat, uvisorResultSlot msg.matchCookie)

/-- The free slots of a pool, as a walk along the free list finds them. -/
def freeSlots (pool : Pool) : List ℕ := slotsFrom pool 257 pool.firstFree

section Statement

variable (sys : Platform) (callee : ℕ) (boxes : Boxes)

/-- The finished messages of a box. -/
abbrev finished (slot : ℕ) : Message := (boxes callee).incoming.messages slot

/-- The caller waits for the result of a finished message. -/
def Awaited (slot : ℕ) : Prop :=
  let msg := finished callee boxes slot
  acceptsResult sys callee (origin msg).1 (origin msg).2 msg boxes = true

instance (slot : ℕ) : Decidable (Awaited sys callee boxes slot) :=
  inferInstanceAs (Decidable (_ = true))

/-- Every finished message is the only one that its caller waits for in its
slot. -/
def AllAwaited (slots : List ℕ) : Prop :=
  (∀ slot ∈ slots, Awaited sys callee boxes slot) ∧
    (slots.map fun slot => origin (finished callee boxes slot)).Nodup

/-- The drain returns, with an empty done queue and all slots that were in it
on the free list. -/
def Recycles : Prop :=
  ∃ fuel boxes', drainResultQueue sys callee fuel boxes = some boxes' ∧
    queueSlots (boxes' callee).incoming.queues .done = [] ∧
    ∀ slot ∈ queueSlots (boxes callee).incoming.queues .done,
      slot ∈ freeSlots (boxes' callee).incoming.queues.pool

/-- The box of an honest callee: its done queue lies in its own memory, its
incoming pool is well formed and not locked, and the finished messages name
boxes as their callers, as the monitor has written there. -/
structure Honest (free : List ℕ) (lists : IncomingName → List ℕ) : Prop where
  /-- The queue passes the validation. -/
  valid : isValidQueue sys (sys.incomingQueue .done callee) (boxes callee).incoming.queues .done
    callee = true
  /-- The pool. -/
  pool : Represents (boxes callee).incoming.queues free lists
  /-- Its lock. -/
  lock : (boxes callee).incoming.queues.pool.spinlock = false
  /-- The callers. -/
  callers : ∀ slot ∈ lists .done, 0 ≤ (finished callee boxes slot).otherBoxId ∧
    (finished callee boxes slot).otherBoxId < sys.boxCount

end Statement

/-! ## One pass -/

/-- The walk over a well-formed free list finds the described list. -/
theorem freeSlots_eq {ι : Type} {m : PoolQueues ι} {free : List ℕ} {lists : ι → List ℕ}
    (h : Represents m free lists) : freeSlots m.pool = free := by
  have hnum := h.num_lt
  have hcount := h.allocated
  unfold freeSlots
  rw [h.free_head]
  refine slotsFrom_chained ?_ h.free_chain fun s hs => (h.lt_reserved (h.free_lt s hs)).1
  simp only [poolMaxValid] at hnum
  omega

variable {sys : Platform} {callee slot : ℕ} {boxes : Boxes} {free rest : List ℕ}
  {lists : IncomingName → List ℕ}

/-- A pass that finds the done queue empty ends the drain and changes nothing. -/
theorem pass_nil (h : Represents (boxes callee).incoming.queues free lists)
    (hl : (boxes callee).incoming.queues.pool.spinlock = false) (hq : lists .done = []) :
    drainResultBody sys callee boxes = .stop boxes := by
  have hnum : (boxes callee).incoming.queues.pool.num ≤ slotInvalid :=
    h.num_lt.le.trans (by decide)
  unfold drainResultBody
  dsimp only
  rw [tryDequeueFirst_nil h hl hq, if_pos hnum, setIncoming_self]

/-- A pass that finds a finished message takes it out of the done queue, and
frees its slot if the caller waits for it. -/
theorem pass_cons (h : Represents (boxes callee).incoming.queues free lists)
    (hl : (boxes callee).incoming.queues.pool.spinlock = false) (hq : lists .done = slot :: rest)
    (hbox : 0 ≤ (finished callee boxes slot).otherBoxId ∧
      (finished callee boxes slot).otherBoxId < sys.boxCount) :
    ∃ boxes', drainResultBody sys callee boxes = .next boxes' ∧
      Represents (boxes' callee).incoming.queues
        (if Awaited sys callee boxes slot then slot :: free else free)
        (Function.update lists .done rest) ∧
      (boxes' callee).incoming.queues.pool.spinlock = false := by
  obtain ⟨hfirst, hr, hheld⟩ := tryDequeueFirst_cons h hl hq
  have hlt : ¬(boxes callee).incoming.queues.pool.num ≤ slot :=
    Nat.not_le.mpr (h.lists_lt .done slot (by simp [hq]))
  have hrange : ¬((finished callee boxes slot).otherBoxId < 0 ∨
      (sys.boxCount : ℤ) ≤ (finished callee boxes slot).otherBoxId) := by omega
  have hlock := uvisorPoolQueueTryDequeueFirst_spinlock (boxes callee).incoming.queues .done
  rw [hl] at hlock
  unfold drainResultBody
  simp only [hfirst, if_neg hlt, setIncoming_messages, if_neg hrange, acceptsResult_setIncoming]
  split
  · rename_i hacc
    have hawaited : Awaited sys callee boxes slot := hacc
    obtain ⟨hfreed, hfree⟩ := tryFree_held hr hlock hheld
    have hnum : ¬(uvisorPoolQueueTryDequeueFirst
        (boxes callee).incoming.queues .done).2.pool.num ≤ slot := by
      rw [num_of_header .done (header_uvisorPoolQueueTryDequeueFirst _ _)]
      exact hlt
    unfold complete
    simp only [setOutgoingMessage_incoming, setIncomingMessage_queues, setIncoming_queues, if_true,
      hfreed, if_neg hnum, if_pos hawaited]
    exact ⟨_, rfl, by simpa using hfree, by simpa using hlock⟩
  · rename_i hrefused
    have hlost : ¬Awaited sys callee boxes slot := hrefused
    rw [if_neg hlost]
    exact ⟨_, rfl, by simpa using hr, by simpa using hlock⟩

/-- The message that a pass completes is the one that it has dequeued. -/
theorem completion_head (h : Represents (boxes callee).incoming.queues free lists)
    (hl : (boxes callee).incoming.queues.pool.spinlock = false) (hq : lists .done = slot :: rest)
    (hbox : 0 ≤ (finished callee boxes slot).otherBoxId ∧
      (finished callee boxes slot).otherBoxId < sys.boxCount) :
    completion sys callee boxes =
      if Awaited sys callee boxes slot then some (origin (finished callee boxes slot))
      else none := by
  obtain ⟨hfirst, -, -⟩ := tryDequeueFirst_cons h hl hq
  have hlt : ¬(boxes callee).incoming.queues.pool.num ≤ slot :=
    Nat.not_le.mpr (h.lists_lt .done slot (by simp [hq]))
  have hrange : ¬((finished callee boxes slot).otherBoxId < 0 ∨
      (sys.boxCount : ℤ) ≤ (finished callee boxes slot).otherBoxId) := by omega
  unfold completion
  simp only [hfirst, if_neg hlt, if_neg hrange]
  rfl

/-- After a pass, a message is awaited if it was and the pass has not completed
its call. -/
theorem awaited_after {boxes' : Boxes} {other : ℕ} (hpass : Drained sys callee boxes boxes')
    (hmsg : finished callee boxes' other = finished callee boxes other) :
    Awaited sys callee boxes' other ↔ Awaited sys callee boxes other ∧
      completion sys callee boxes ≠ some (origin (finished callee boxes other)) := by
  unfold Awaited
  dsimp only
  rw [hmsg]
  generalize origin (finished callee boxes other) = named
  obtain ⟨caller, callerSlot⟩ := named
  unfold acceptsResult
  dsimp only
  rw [hpass.queues]
  by_cases hc : completion sys callee boxes = some (caller, callerSlot)
  · obtain ⟨-, -, -, -, -, count, hwritten, -⟩ := hpass.completed caller callerSlot hc
    simp [hwritten, hc]
  · simp [hpass.others caller callerSlot hc, hc]

/-! ## The whole drain -/

/-- With the slots in the done queue still to go, the drain empties it. The free
slots stay free, and all slots of the done queue get free exactly if every
message is awaited. -/
theorem drain_spec (l : List ℕ) (h : Represents (boxes callee).incoming.queues free lists)
    (hl : (boxes callee).incoming.queues.pool.spinlock = false) (hq : lists .done = l)
    (hbox : ∀ s ∈ l, 0 ≤ (finished callee boxes s).otherBoxId ∧
      (finished callee boxes s).otherBoxId < sys.boxCount) :
    ∃ boxes' free', iterate (drainResultBody sys callee) (l.length+1) boxes = some boxes' ∧
      Represents (boxes' callee).incoming.queues free' (Function.update lists .done []) ∧
      (∀ s ∈ free, s ∈ free') ∧ (∀ s ∈ free', s ∈ free ∨ s ∈ l) ∧
      ((∀ s ∈ l, s ∈ free') ↔ AllAwaited sys callee boxes l) := by
  induction l generalizing boxes free lists with
  | nil =>
    refine ⟨boxes, free, ?_, ?_, fun s hs => hs, fun s hs => .inl hs, by simp [AllAwaited]⟩
    · simp [iterate, pass_nil h hl hq]
    · rwa [← hq, Function.update_eq_self]
  | cons slot rest ih =>
    have hhead := hbox slot List.mem_cons_self
    have hnd := h.nodup .done
    rw [hq, List.nodup_cons] at hnd
    have hfresh : slot ∉ free := h.free_disjoint .done slot (by simp [hq])
    obtain ⟨boxes₁, hbody, hr₁, hl₁⟩ := pass_cons h hl hq hhead
    have hpass := drainResultBody_drained (.inl hbody)
    have hcompletion := completion_head h hl hq hhead
    have hmsg : ∀ s ∈ rest, finished callee boxes₁ s = finished callee boxes s := by
      intro s hs
      refine (drainResultBody_home (.inl hbody)).2 s fun _ => ?_
      rw [(tryDequeueFirst_cons h hl hq).1]
      rintro rfl
      exact hnd.1 hs
    obtain ⟨boxes', free', hrun, hr', hmore, hfrom, hall⟩ := ih hr₁ hl₁
      (Function.update_self ..) fun s hs => by
        rw [hmsg s hs]
        exact hbox s (List.mem_cons_of_mem _ hs)
    rw [Function.update_idem] at hr'
    have hkept : ∀ s ∈ free, s ∈ free' := fun s hs => hmore s (by split <;> simp [hs])
    have hrest : AllAwaited sys callee boxes₁ rest ↔ AllAwaited sys callee boxes rest ∧
        ∀ s ∈ rest, completion sys callee boxes ≠ some (origin (finished callee boxes s)) := by
      have hnames : (rest.map fun s => origin (finished callee boxes₁ s)) =
          rest.map fun s => origin (finished callee boxes s) :=
        List.map_congr_left fun s hs => by rw [hmsg s hs]
      have hwaits : (∀ s ∈ rest, Awaited sys callee boxes₁ s) ↔
          ∀ s ∈ rest, Awaited sys callee boxes s ∧
            completion sys callee boxes ≠ some (origin (finished callee boxes s)) :=
        forall₂_congr fun s hs => awaited_after hpass (hmsg s hs)
      unfold AllAwaited
      rw [hnames, hwaits, forall₂_and]
      tauto
    refine ⟨boxes', free', ?_, hr', hkept, fun s hs => ?_, ?_⟩
    · rw [List.length_cons, iterate, hbody]
      exact hrun
    · rcases hfrom s hs with hs | hs
      · split at hs
        · rcases List.mem_cons.mp hs with rfl | hs
          · exact .inr List.mem_cons_self
          · exact .inl hs
        · exact .inl hs
      · exact .inr (List.mem_cons_of_mem _ hs)
    · rw [List.forall_mem_cons, hall, hrest, hcompletion]
      by_cases hawaited : Awaited sys callee boxes slot
      · have hfreed : slot ∈ free' := hmore slot (by simp [hawaited])
        simp only [AllAwaited, hfreed, hawaited, true_and, if_true, List.forall_mem_cons,
          List.map_cons, List.nodup_cons, List.mem_map]
        grind
      · have hlost : slot ∉ free' := fun hs => by
          rw [if_neg hawaited] at hfrom
          rcases hfrom slot hs with hs | hs
          · exact hfresh hs
          · exact hnd.1 hs
        simp [AllAwaited, hlost, hawaited]

/-- The outcome of the drain does not depend on the fuel. -/
theorem drainResultQueue_unique {fuel fuel' : ℕ} {last last' : Boxes}
    (h : drainResultQueue sys callee fuel boxes = some last)
    (h' : drainResultQueue sys callee fuel' boxes = some last') : last' = last := by
  unfold drainResultQueue at h h'
  dsimp only at h h'
  split at h
  · rename_i hinvalid
    rw [if_pos hinvalid] at h'
    exact (Option.some.inj h').symm.trans (Option.some.inj h)
  · rename_i hvalid
    rw [if_neg hvalid] at h'
    exact iterate_unique h h'

/-- The drain of an honest callee gives all slots of its done queue back exactly
if each finished message is the only one that its caller waits for in its
slot. -/
theorem recycles_iff (h : Honest sys callee boxes free lists) :
    Recycles sys callee boxes ↔ AllAwaited sys callee boxes (lists .done) := by
  obtain ⟨last, free', hrun, hr, -, -, hall⟩ :=
    drain_spec (lists .done) h.pool h.lock rfl h.callers
  have hdrain : drainResultQueue sys callee ((lists .done).length+1) boxes = some last := by
    rw [drainResultQueue, if_neg (by simp [h.valid]), hrun]
  unfold Recycles
  rw [Represents.queueSlots_eq h.pool .done, ← hall]
  constructor
  · rintro ⟨fuel, boxes', hboxes', -, hfree⟩
    obtain rfl : boxes' = last := drainResultQueue_unique hdrain hboxes'
    rwa [freeSlots_eq hr] at hfree
  · intro hfree
    refine ⟨_, last, hdrain, ?_, ?_⟩
    · rw [Represents.queueSlots_eq hr .done, Function.update_self]
    · rwa [freeSlots_eq hr]

/-! ## A result that its caller gives up -/

/-- Box 1 has finished a call of box 0, whose message is in the given state. -/
def finishedCall (state : MessageState) : Boxes :=
  let asked := {(bootedBoxes 0).outgoing.messages 0 with
    otherBoxId := 1, matchCookie := 0x800, state }
  let answered := {(bootedBoxes 1).incoming.messages 0 with
    otherBoxId := 0, matchCookie := 0x800, result := 7, state := .done}
  let boxes := bootedBoxes.setIncoming 1 ((queueFresh .done)^[1] (bootedBoxes 1).incoming.queues)
  (boxes.setOutgoingMessage 0 0 asked).setIncomingMessage 1 0 answered

theorem finishedCall_honest (state : MessageState) :
    Honest threeBoxes 1 (finishedCall state) [1, 2, 3, 4, 5, 6, 7]
      (Function.update (fun _ => []) .done [0]) := by
  have hboot := bootedBoxes_describes 1 (by decide)
  obtain ⟨hpool, hlock⟩ := queueFresh_iterate [0] [1, 2, 3, 4, 5, 6, 7] hboot.incoming
    hboot.incoming_lock .done
  have hqueues : (finishedCall state 1).incoming.queues =
      (queueFresh .done)^[1] (bootedBoxes 1).incoming.queues := by
    simp [finishedCall]
  refine ⟨?_, ?_, ?_, fun slot hslot => ?_⟩
  · rw [hqueues]
    decide
  · rw [hqueues]
    exact hpool
  · rw [hqueues]
    exact hlock
  · rw [Function.update_self, List.mem_singleton] at hslot
    subst hslot
    simp [finished, finishedCall, threeBoxes]

/-- The caller waits for the result. -/
theorem recycles_finishedCall : Recycles threeBoxes 1 (finishedCall .sent) := by
  refine (recycles_iff (finishedCall_honest .sent)).mpr ⟨?_, List.nodup_singleton _⟩
  intro slot hslot
  obtain rfl := List.mem_singleton.mp hslot
  decide

/-- The caller has overwritten the state of its message. -/
theorem recycles_fails_finishedCall : ¬Recycles threeBoxes 1 (finishedCall .idle) := by
  intro h
  obtain ⟨fuel, boxes', hrun, -, hfree⟩ := h
  have hkept : (drainResultQueue threeBoxes 1 2 (finishedCall .idle)).map
      (fun boxes => freeSlots (boxes 1).incoming.queues.pool) = some [1, 2, 3, 4, 5, 6, 7] := by
    decide
  obtain ⟨last, hlast, hslots⟩ := Option.map_eq_some_iff.mp hkept
  have hdone : 0 ∈ queueSlots (finishedCall .idle 1).incoming.queues .done := by decide
  have hmem := hfree 0 hdone
  rw [drainResultQueue_unique hlast hrun, hslots] at hmem
  exact absurd hmem (by decide)

end Uvisor.RpcResultSlots
