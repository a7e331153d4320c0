import Uvisor.RpcCallers

/-!
# The handling side of a box

With one handler thread, a message that the handler has found stays in the
todo queue until the handler takes it out. From its delivery to its collection
a message waits for its execution and then waits for its collection; calling
the target is the only step of the handler between the two.
-/

namespace Uvisor.RpcCallees

open PoolQueue PoolInvariant PoolOperations Rpc RpcApi RpcDescription RpcLibrary RpcHandlers

/-- The handler's position agrees with the queues. -/
structure HandlerFits (rpc : BoxRpc) (lists : BoxLists) (pc : Pc) : Prop where
  /-- A found message is in the todo queue. -/
  found : ∀ group slot first, pc = .found group slot first → slot ∈ lists.incoming .todo
  /-- A dequeued message is in no queue. -/
  taken : ∀ slot, pc.taken = some slot →
    Held rpc.incoming.queues lists.inFree lists.incoming slot
  /-- A group about to be queued is in no queue. -/
  publishing : ∀ group, pc = .publishing group →
    Held rpc.fnGroups.queues lists.groupFree (fun _ => lists.groups) group

/-- A delivered message whose target has not been called. -/
def Waiting (lists : BoxLists) (pc : Pc) (slot : ℕ) : Prop :=
  slot ∈ lists.incoming .todo ∨ ∃ group first, pc = .holding group slot first

/-- A message whose target has been called and whose result has not been
collected. -/
def Executed (lists : BoxLists) (pc : Pc) (slot : ℕ) : Prop :=
  slot ∈ lists.incoming .done ∨ pc = .ran slot

section Handler

variable {sys : Platform} {rpc rpc' : BoxRpc} {lists : BoxLists} {pc pc' : Pc} {next : HandlerStep}

/-- The handler does not touch the calling side of its box. -/
theorem handlerStep_outgoing (hs : handlerStep sys rpc pc next = some (rpc', pc')) :
    rpc'.outgoing = rpc.outgoing ∧ rpc'.resultCounter = rpc.resultCounter := by
  unfold handlerStep at hs
  split at hs
  · split at hs <;> cases hs <;> exact ⟨rfl, rfl⟩
  · obtain ⟨claimed, hc, he⟩ := Option.map_eq_some_iff.mp hs
    cases he
    obtain ⟨out, -, rfl⟩ := Option.map_eq_some_iff.mp hc
    split <;> exact ⟨rfl, rfl⟩
  · obtain ⟨out, hp, he⟩ := Option.map_eq_some_iff.mp hs
    cases he
    obtain ⟨queues, -, rfl⟩ := Option.map_eq_some_iff.mp hp
    exact ⟨rfl, rfl⟩
  · obtain ⟨out, hp, he⟩ := Option.map_eq_some_iff.mp hs
    cases he
    obtain ⟨count, -, rfl⟩ := Option.map_eq_some_iff.mp hp
    exact ⟨rfl, rfl⟩
  · cases hs
    exact ⟨rfl, rfl⟩
  · obtain ⟨out, hp, he⟩ := Option.map_eq_some_iff.mp hs
    obtain ⟨found, -, rfl⟩ := Option.map_eq_some_iff.mp hp
    split at he <;> cases he <;> exact ⟨rfl, rfl⟩
  · obtain ⟨out, hp, he⟩ := Option.map_eq_some_iff.mp hs
    obtain ⟨found, -, rfl⟩ := Option.map_eq_some_iff.mp hp
    split at he <;> cases he <;> exact ⟨rfl, rfl⟩
  · split at hs <;> cases hs <;> exact ⟨rfl, rfl⟩
  · obtain ⟨out, hp, he⟩ := Option.map_eq_some_iff.mp hs
    cases he
    obtain ⟨queues, -, rfl⟩ := Option.map_eq_some_iff.mp hp
    exact ⟨rfl, rfl⟩
  · cases hs

/-- Claiming a function group keeps the pool of groups well formed. -/
theorem claimFunctionGroup_represents {free groups : List ℕ} {fnPtrArray fnCount : ℕ}
    {claimed : Option ℕ × BoxRpc} (hr : Represents rpc.fnGroups.queues free (fun _ => groups))
    (hc : claimFunctionGroup rpc fnPtrArray fnCount = some claimed) :
    ∃ free', Represents claimed.2.fnGroups.queues free' (fun _ => groups) ∧
      ∀ group, claimed.1 = some group →
        Held claimed.2.fnGroups.queues free' (fun _ => groups) group := by
  have hnum := hr.num_lt
  cases hl : rpc.fnGroups.queues.pool.spinlock with
  | true =>
    simp [claimFunctionGroup, uvisorPoolAllocate, withLock, uvisorSpinLock, uvisorSpinTrylock, hl]
      at hc
  | false =>
    rw [claimFunctionGroup, allocate_of_free hl, Option.map_some] at hc
    cases free with
    | nil =>
      have hend : rpc.fnGroups.queues.pool.num ≤ slotInvalid := by
        simp only [poolMaxValid, slotInvalid] at *
        omega
      rw [tryAllocate_nil hr hl] at hc
      dsimp only at hc
      rw [if_pos hend] at hc
      cases hc
      exact ⟨[], hr, fun group hg => by cases hg⟩
    | cons slot free =>
      obtain ⟨hslot, hr', hheld⟩ := tryAllocate_cons hr hl
      have hlt : ¬(uvisorPoolTryAllocate rpc.fnGroups.queues).2.pool.num ≤ slot :=
        Nat.not_le.mpr hheld.1
      dsimp only at hc
      rw [hslot, if_neg hlt] at hc
      cases hc
      refine ⟨free, hr', fun group hg => ?_⟩
      cases hg
      exact hheld

/-- Every step of the handler keeps the pool of function groups well formed. -/
theorem handlerStep_groups {free groups : List ℕ}
    (hr : Represents rpc.fnGroups.queues free (fun _ => groups))
    (hpublishing : ∀ group, pc = .publishing group →
      Held rpc.fnGroups.queues free (fun _ => groups) group)
    (hs : handlerStep sys rpc pc next = some (rpc', pc')) :
    ∃ free' groups', Represents rpc'.fnGroups.queues free' (fun _ => groups') ∧
      ∀ group, pc' = .publishing group →
        Held rpc'.fnGroups.queues free' (fun _ => groups') group := by
  have hsame : rpc'.fnGroups.queues = rpc.fnGroups.queues → (∀ group, pc' ≠ .publishing group) →
      ∃ free' groups', Represents rpc'.fnGroups.queues free' (fun _ => groups') ∧
        ∀ group, pc' = .publishing group →
          Held rpc'.fnGroups.queues free' (fun _ => groups') group := by
    intro hq hne
    exact ⟨free, groups, hq ▸ hr, fun group hg => absurd hg (hne group)⟩
  have hunhandled : ∀ group first g, unhandled group first ≠ .publishing g := by
    intro group first g
    cases first <;> simp [unhandled]
  unfold handlerStep at hs
  split at hs
  · split at hs <;> cases hs <;> exact hsame rfl (by simp)
  · obtain ⟨claimed, hc, he⟩ := Option.map_eq_some_iff.mp hs
    cases he
    obtain ⟨free', hr', hheld⟩ := claimFunctionGroup_represents hr hc
    refine ⟨free', groups, hr', fun group hg => hheld group ?_⟩
    cases hclaimed : claimed.1 with
    | none => simp [hclaimed] at hg
    | some slot =>
      rw [hclaimed] at hg
      cases hg
      rfl
  · rename_i group
    obtain ⟨out, hp, he⟩ := Option.map_eq_some_iff.mp hs
    cases he
    obtain ⟨queues, hq, rfl⟩ := Option.map_eq_some_iff.mp hp
    cases hl : rpc.fnGroups.queues.pool.spinlock with
    | true =>
      have hne := (hr.lt_reserved (hpublishing group rfl).1).1
      simp [uvisorPoolQueueEnqueue, withLock, uvisorSpinLock, uvisorSpinTrylock, hl, hne] at hq
    | false =>
      rw [enqueue_of_free hl] at hq
      cases hq
      obtain ⟨-, hr'⟩ := tryEnqueue_held hr hl () (hpublishing group rfl)
      rw [update_unit] at hr'
      exact ⟨free, groups ++ [group], hr', by simp⟩
  · obtain ⟨out, hp, he⟩ := Option.map_eq_some_iff.mp hs
    cases he
    obtain ⟨count, -, rfl⟩ := Option.map_eq_some_iff.mp hp
    exact hsame rfl (by simp)
  · cases hs
    exact hsame rfl (by simp)
  · obtain ⟨out, hp, he⟩ := Option.map_eq_some_iff.mp hs
    obtain ⟨found, -, rfl⟩ := Option.map_eq_some_iff.mp hp
    split at he <;> cases he
    · exact hsame rfl (hunhandled _ _)
    · exact hsame rfl (by simp)
  · obtain ⟨out, hp, he⟩ := Option.map_eq_some_iff.mp hs
    obtain ⟨found, -, rfl⟩ := Option.map_eq_some_iff.mp hp
    split at he <;> cases he
    · exact hsame rfl (hunhandled _ _)
    · exact hsame rfl (by simp)
  · split at hs <;> cases hs
    · exact hsame rfl (by simp)
    · exact hsame rfl (hunhandled _ _)
  · obtain ⟨out, hp, he⟩ := Option.map_eq_some_iff.mp hs
    cases he
    obtain ⟨queues, -, rfl⟩ := Option.map_eq_some_iff.mp hp
    exact hsame rfl (by simp)
  · cases hs

/-- What a step of the handler does to the messages of its box: it moves none
from waiting to executed, or it calls the target of one. -/
inductive Handled (rpc rpc' : BoxRpc) (lists lists' : BoxLists) (pc pc' : Pc) : Prop where
  /-- No target is called. -/
  | moved (hmessages : rpc'.incoming.messages = rpc.incoming.messages)
      (hran : ∀ slot, pc' ≠ .ran slot)
      (hwaiting : ∀ slot, Waiting lists' pc' slot ↔ Waiting lists pc slot)
      (hexecuted : ∀ slot, Executed lists' pc' slot ↔ Executed lists pc slot)
  /-- A target is called. -/
  | called (group slot : ℕ) (first : Bool) (value : ℕ) (hpc : pc = .holding group slot first)
      (hpc' : pc' = .ran slot)
      (hmessages : rpc'.incoming.messages = (storeResult rpc slot value).incoming.messages)
      (hlists : lists'.incoming = lists.incoming)

/-- A message with a good gateway that has been dequeued is executed next. -/
theorem handlerStep_holding {group slot : ℕ} {first : Bool}
    (hmagic : hasGatewayMagic sys (rpc.incoming.messages slot) = true)
    (hs : handlerStep sys rpc (.holding group slot first) next = some (rpc', pc')) :
    ∃ value, rpc' = storeResult rpc slot value ∧ pc' = .ran slot := by
  cases next with
  | dispatch value =>
    simp only [handlerStep, hmagic, if_true] at hs
    cases hs
    exact ⟨value, rfl, rfl⟩
  | _ => cases hs

/-- Every step of the handler leaves the handling side in order. -/
theorem handlerStep_handled (hd : DescribesBox rpc lists) (h : HandlerFits rpc lists pc)
    (hmagic : ∀ group slot first, pc = .holding group slot first →
      hasGatewayMagic sys (rpc.incoming.messages slot) = true)
    (hs : handlerStep sys rpc pc next = some (rpc', pc')) :
    ∃ incoming groupFree groups,
      let lists' := {lists with incoming := incoming, groupFree := groupFree, groups := groups}
      DescribesBox rpc' lists' ∧ HandlerFits rpc' lists' pc' ∧
        header rpc'.incoming.queues = header rpc.incoming.queues ∧
        Handled rpc rpc' lists lists' pc pc' := by
  obtain ⟨hout, -⟩ := handlerStep_outgoing hs
  obtain ⟨groupFree, groups, hgroups, hpublishing⟩ :=
    handlerStep_groups hd.fnGroups h.publishing hs
  have hdescribes : ∀ incoming, Represents rpc'.incoming.queues lists.inFree incoming →
      rpc'.incoming.queues.pool.spinlock = false →
      DescribesBox rpc' {lists with
        incoming := incoming, groupFree := groupFree, groups := groups} := by
    intro incoming hr hl
    exact ⟨hout ▸ hd.outgoing, hr, hgroups, hout ▸ hd.outgoing_lock, hl⟩
  by_cases hholding : ∃ group slot first, pc = .holding group slot first
  · obtain ⟨group, slot, first, rfl⟩ := hholding
    obtain ⟨value, rfl, rfl⟩ := handlerStep_holding (hmagic group slot first rfl) hs
    refine ⟨lists.incoming, groupFree, groups, hdescribes _ hd.incoming hd.incoming_lock, ?_, rfl,
      .called group slot first value rfl rfl rfl rfl⟩
    exact ⟨by simp, fun s hs => h.taken s hs, hpublishing⟩
  · have hnot : ∀ group slot first, pc ≠ .holding group slot first :=
      fun group slot first he => hholding ⟨group, slot, first, he⟩
    have hfound : ∀ group slot first, pc = .found group slot first →
        slot < rpc.incoming.queues.pool.num ∧ slot ∉ lists.incoming .done := by
      intro group slot first he
      have hmem := h.found group slot first he
      exact ⟨hd.incoming.lists_lt .todo slot hmem,
        hd.incoming.disjoint .todo .done (by decide) slot hmem⟩
    have hran : ∀ slot, pc = .ran slot →
        Held rpc.incoming.queues lists.inFree lists.incoming slot := by
      intro slot he
      exact h.taken slot (by rw [he]; rfl)
    obtain ⟨incoming, houtcome⟩ := handlerStep_outcome hd.incoming hd.incoming_lock hfound hran hs
    refine ⟨incoming, groupFree, groups, ?_⟩
    cases houtcome with
    | quiet hin hpc htaken hfound' =>
      have hnone : pc.taken = none := by
        cases pc with
        | holding group slot first => exact absurd rfl (hnot group slot first)
        | ran slot => exact absurd rfl (hpc slot)
        | _ => rfl
      have hlost : ∀ {q : Pc}, q.taken = none → (∀ group slot first, q ≠ .holding group slot first) ∧
          ∀ slot, q ≠ .ran slot := by
        intro q hq
        cases q <;> simp_all [Pc.taken]
      refine ⟨hdescribes _ (hin ▸ hd.incoming) (hin ▸ hd.incoming_lock), ⟨hfound', ?_, hpublishing⟩,
        by rw [hin], .moved (by rw [hin]) (hlost htaken).2 ?_ ?_⟩
      · simp [htaken]
      · intro slot
        simp [Waiting, (hlost htaken).1, (hlost hnone).1]
      · intro slot
        simp [Executed, (hlost htaken).2, (hlost hnone).2]
    | took hmem hr hl hh =>
      rename_i group slot first queues
      refine ⟨hdescribes _ hr hl, ⟨by simp, ?_, hpublishing⟩, hh, .moved rfl (by simp) ?_ ?_⟩
      · intro s hs
        cases hs
        exact held_of_erase hd.incoming (num_of_header .todo hh) hmem
      · intro s
        simp only [Waiting, Function.update_self, (hd.incoming.nodup .todo).mem_erase_iff]
        by_cases hss : s = slot
        · subst hss
          simp [hmem]
        · simp [hss, Ne.symm hss]
      · intro s
        simp [Executed]
    | called value =>
      rename_i group slot first
      exact absurd rfl (hnot group slot first)
    | put hr hl hh =>
      rename_i slot queues
      refine ⟨hdescribes _ hr hl, ⟨by simp, by simp [Pc.taken], hpublishing⟩, hh,
        .moved rfl (by simp) ?_ ?_⟩
      · intro s
        simp [Waiting]
      · intro s
        simp [Executed, eq_comm]

end Handler

end Uvisor.RpcCallees
