import Uvisor.RpcDescription

/-!
# What the steps of the library do to the described lists

Each step of a caller or a handler that goes through a pool operation is
specified by its effect on the lists of its own box. The rest of the box is
not written.
-/

namespace Uvisor.RpcLibrary

open PoolQueue PoolInvariant PoolOperations Rpc RpcApi

section Incoming

variable {rpc : BoxRpc} {free : List ℕ} {lists : IncomingName → List ℕ}

/-- Replace the incoming queue structures of a box. -/
def withIncoming (rpc : BoxRpc) (queues : PoolQueues IncomingName) : BoxRpc :=
  {rpc with incoming := ⟨queues, rpc.incoming.messages⟩}

/-- Finding returns the first match of the todo queue and changes nothing. -/
theorem findIncoming_eq (sys : Platform) (group : FnGroup)
    (h : Represents rpc.incoming.queues free lists)
    (hl : rpc.incoming.queues.pool.spinlock = false) :
    findIncoming sys rpc group =
      some (((lists .todo).find? fun slot =>
        queryForFnGroup sys group (rpc.incoming.messages slot)).getD slotInvalid, rpc) := by
  rw [findIncoming, findFirst_of_free hl, tryFindFirst_spec h hl]
  rfl

/-- A message in the todo queue is dequeued and then held. -/
theorem dequeueIncoming_mem {slot : ℕ} (h : Represents rpc.incoming.queues free lists)
    (hl : rpc.incoming.queues.pool.spinlock = false) (hs : slot ∈ lists .todo) :
    ∃ queues, dequeueIncoming rpc slot = some (slot, withIncoming rpc queues) ∧
      Represents queues free (Function.update lists .todo ((lists .todo).erase slot)) ∧
      queues.pool.spinlock = false ∧ header queues = header rpc.incoming.queues := by
  obtain ⟨hslot, hr, -⟩ := tryDequeue_mem h hl hs
  refine ⟨(uvisorPoolQueueTryDequeue rpc.incoming.queues .todo slot).2, ?_, hr, ?_, ?_⟩
  · rw [dequeueIncoming, dequeue_of_free hl, Option.map_some, hslot]
    rfl
  · rw [uvisorPoolQueueTryDequeue_spinlock, hl]
  · rw [header_uvisorPoolQueueTryDequeue]

/-- Dequeuing a slot that is not queued reports that and changes nothing. -/
theorem dequeueIncoming_not_queued {slot : ℕ} (h : Represents rpc.incoming.queues free lists)
    (hl : rpc.incoming.queues.pool.spinlock = false) (hlt : slot < rpc.incoming.queues.pool.num)
    (hs : ∀ i, slot ∉ lists i) :
    ∃ status, dequeueIncoming rpc slot = some (status, rpc) ∧
      rpc.incoming.queues.pool.num ≤ status := by
  obtain ⟨hsame, hstatus⟩ := tryDequeue_not_queued h hl .todo hlt hs
  refine ⟨(uvisorPoolQueueTryDequeue rpc.incoming.queues .todo slot).1, ?_, hstatus⟩
  rw [dequeueIncoming, dequeue_of_free hl, Option.map_some, hsame]

/-- A held message is put at the end of the done queue. -/
theorem enqueueDone_held {slot : ℕ} (h : Represents rpc.incoming.queues free lists)
    (hl : rpc.incoming.queues.pool.spinlock = false)
    (hs : Held rpc.incoming.queues free lists slot) :
    ∃ queues, enqueueDone rpc slot = some (withIncoming rpc queues) ∧
      Represents queues free (Function.update lists .done (lists .done ++ [slot])) ∧
      queues.pool.spinlock = false ∧ header queues = header rpc.incoming.queues := by
  obtain ⟨-, hr⟩ := tryEnqueue_held h hl .done hs
  refine ⟨(uvisorPoolQueueTryEnqueue rpc.incoming.queues .done slot).2, ?_, hr, ?_, ?_⟩
  · rw [enqueueDone, enqueue_of_free hl, Option.map_some]
    rfl
  · rw [uvisorPoolQueueTryEnqueue_spinlock, hl]
  · rw [header_uvisorPoolQueueTryEnqueue]

end Incoming

section Outgoing

variable {rpc : BoxRpc} {free out : List ℕ}

/-- Replace the outgoing queue structures of a box. -/
def withOutgoing (rpc : BoxRpc) (queues : PoolQueues Unit) : BoxRpc :=
  {rpc with outgoing := ⟨queues, rpc.outgoing.messages⟩}

/-- Without a free slot the claim reports that and changes nothing. -/
theorem claimOutgoing_nil (h : Represents rpc.outgoing.queues [] (fun _ => out))
    (hl : rpc.outgoing.queues.pool.spinlock = false) :
    claimOutgoing rpc = some (slotInvalid, rpc) := by
  rw [claimOutgoing, allocate_of_free hl, tryAllocate_nil h hl]
  rfl

/-- The first free slot is claimed and then held. -/
theorem claimOutgoing_cons {slot : ℕ}
    (h : Represents rpc.outgoing.queues (slot :: free) (fun _ => out))
    (hl : rpc.outgoing.queues.pool.spinlock = false) :
    ∃ queues, claimOutgoing rpc = some (slot, withOutgoing rpc queues) ∧
      Represents queues free (fun _ => out) ∧ queues.pool.spinlock = false ∧
      header queues = header rpc.outgoing.queues := by
  obtain ⟨hslot, hr, -⟩ := tryAllocate_cons h hl
  refine ⟨(uvisorPoolTryAllocate rpc.outgoing.queues).2, ?_, hr, ?_, ?_⟩
  · rw [claimOutgoing, allocate_of_free hl, Option.map_some, hslot]
    rfl
  · rw [uvisorPoolTryAllocate_spinlock, hl]
  · rw [header_uvisorPoolTryAllocate]

/-- A held slot is put at the end of the outgoing queue. -/
theorem enqueueOutgoing_held {slot : ℕ} (h : Represents rpc.outgoing.queues free (fun _ => out))
    (hl : rpc.outgoing.queues.pool.spinlock = false)
    (hs : Held rpc.outgoing.queues free (fun _ => out) slot) :
    ∃ queues, enqueueOutgoing rpc slot = some (withOutgoing rpc queues) ∧
      Represents queues free (fun _ => out ++ [slot]) ∧ queues.pool.spinlock = false ∧
      header queues = header rpc.outgoing.queues := by
  obtain ⟨-, hr⟩ := tryEnqueue_held h hl () hs
  rw [PoolOperations.update_unit] at hr
  refine ⟨(uvisorPoolQueueTryEnqueue rpc.outgoing.queues () slot).2, ?_, hr, ?_, ?_⟩
  · rw [enqueueOutgoing, enqueue_of_free hl, Option.map_some]
    rfl
  · rw [uvisorPoolQueueTryEnqueue_spinlock, hl]
  · rw [header_uvisorPoolQueueTryEnqueue]

/-- A held slot passes the state check and becomes the first free one. -/
theorem freeOutgoingMsg_held {slot : ℕ} (h : Represents rpc.outgoing.queues free (fun _ => out))
    (hl : rpc.outgoing.queues.pool.spinlock = false)
    (hs : Held rpc.outgoing.queues free (fun _ => out) slot) :
    ∃ queues, freeOutgoingMsg rpc slot = some (withOutgoing rpc queues) ∧
      Represents queues (slot :: free) (fun _ => out) ∧ queues.pool.spinlock = false ∧
      header queues = header rpc.outgoing.queues := by
  have hstate := h.held_state slot hs.1 hs.2.1 hs.2.2
  obtain ⟨-, hr⟩ := tryFree_held h hl hs
  refine ⟨(uvisorPoolTryFree rpc.outgoing.queues slot).2, ?_, hr, ?_, ?_⟩
  · rw [freeOutgoingMsg, if_neg (not_not.mpr hstate), free_of_free hl, Option.map_some]
    rfl
  · rw [uvisorPoolTryFree_spinlock, hl]
  · rw [header_uvisorPoolTryFree]

end Outgoing

end Uvisor.RpcLibrary
