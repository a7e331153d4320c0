import Uvisor.RpcAtMostOnce

/-!
# Wake-ups of handler threads

Every function group has one handler thread, which waits on the semaphore of
the group. The semaphore counts to one only, and a woken thread handles one
message only, so the messages of a group that are waiting must not outnumber
the count and the thread that is already awake. Deliveries that find enough
messages waiting for the group break this balance.
-/

namespace Uvisor.RpcWakeup

open PoolQueue PoolInvariant PoolOperations Rpc RpcApi RpcDescription RpcLibrary RpcHandlers
  RpcAtMostOnce Execution

/-! ## Waiting messages and the threads that are awake -/

/-- Number of messages in the todo queue that a group can handle. -/
def need (sys : Platform) (todo : List ℕ) (messages : ℕ → Message) (group : FnGroup) : ℕ :=
  todo.countP fun slot => queryForFnGroup sys group (messages slot)

/-- One when the thread is about to search for messages of a group, or has one
of the waiting ones in hand. -/
def cover (sys : Platform) (todo : List ℕ) (messages : ℕ → Message) (g : ℕ) (group : FnGroup) :
    Pc → ℕ
  | .searching h _ => if h = g then 1 else 0
  | .found h slot _ =>
    if h = g ∧ slot ∈ todo ∧ queryForFnGroup sys group (messages slot) = true then 1 else 0
  | _ => 0

/-- Messages of a group that are waiting. -/
def waitingFor (sys : Platform) (s : State) (g : ℕ) : ℕ :=
  need sys (queueSlots s.rpc.incoming.queues .todo) s.rpc.incoming.messages
    (s.rpc.fnGroups.fnGroups g)

/-- Whether the thread of a group is awake. -/
def awakeFor (sys : Platform) (owner : ℕ → ℕ) (s : State) (g : ℕ) : ℕ :=
  let group := s.rpc.fnGroups.fnGroups g
  cover sys (queueSlots s.rpc.incoming.queues .todo) s.rpc.incoming.messages g group
    (s.pc (owner group.fnPtrArray))

/-- Every function pointer array belongs to one thread, which alone waits for
its functions. -/
def OneHandler (owner : ℕ → ℕ) : Action → Prop
  | .handler i (.lookup fnPtrArray _) => fnPtrArray ≠ 0 ∧ owner fnPtrArray = i
  | _ => True

instance (owner : ℕ → ℕ) (a : Action) : Decidable (OneHandler owner a) :=
  match a with
  | .handler i (.lookup fnPtrArray _) =>
    inferInstanceAs (Decidable (fnPtrArray ≠ 0 ∧ owner fnPtrArray = i))
  | .handler _ .claim => inferInstanceAs (Decidable True)
  | .handler _ .publish => inferInstanceAs (Decidable True)
  | .handler _ .pend => inferInstanceAs (Decidable True)
  | .handler _ .timeout => inferInstanceAs (Decidable True)
  | .handler _ .find => inferInstanceAs (Decidable True)
  | .handler _ .dequeue => inferInstanceAs (Decidable True)
  | .handler _ (.dispatch _) => inferInstanceAs (Decidable True)
  | .handler _ .finish => inferInstanceAs (Decidable True)
  | .deliver _ _ => inferInstanceAs (Decidable True)
  | .collect _ => inferInstanceAs (Decidable True)

/-- The group a thread is about to queue. -/
def toPublish : Pc → Option ℕ
  | .publishing g => some g
  | _ => none

/-- A message is delivered to an existing group only while its waiting messages
are covered by the thread that is awake, a group is published only while at
most one of its messages is waiting, and no finished message is dequeued. -/
def Timely (sys : Platform) (owner : ℕ → ℕ) (s : State) : Action → Prop
  | .deliver msg _ => ∀ g ∈ queueSlots s.rpc.fnGroups.queues (),
      queryForFnGroup sys (s.rpc.fnGroups.fnGroups g) msg = true →
        waitingFor sys s g ≤ awakeFor sys owner s g
  | .handler i .publish => ∀ g ∈ toPublish (s.pc i), waitingFor sys s g ≤ 1
  | .handler i .dequeue => NoStaleDequeue s (.handler i .dequeue)
  | _ => True

instance (sys : Platform) (owner : ℕ → ℕ) (s : State) (a : Action) :
    Decidable (Timely sys owner s a) :=
  match a with
  | .deliver msg _ => inferInstanceAs (Decidable (∀ g ∈ queueSlots s.rpc.fnGroups.queues (),
      queryForFnGroup sys (s.rpc.fnGroups.fnGroups g) msg = true →
        waitingFor sys s g ≤ awakeFor sys owner s g))
  | .handler i .publish =>
    inferInstanceAs (Decidable (∀ g ∈ toPublish (s.pc i), waitingFor sys s g ≤ 1))
  | .handler i .dequeue => inferInstanceAs (Decidable (NoStaleDequeue s (.handler i .dequeue)))
  | .handler _ (.lookup _ _) => inferInstanceAs (Decidable True)
  | .handler _ .claim => inferInstanceAs (Decidable True)
  | .handler _ .pend => inferInstanceAs (Decidable True)
  | .handler _ .timeout => inferInstanceAs (Decidable True)
  | .handler _ .find => inferInstanceAs (Decidable True)
  | .handler _ (.dispatch _) => inferInstanceAs (Decidable True)
  | .handler _ .finish => inferInstanceAs (Decidable True)
  | .collect _ => inferInstanceAs (Decidable True)

/-- Function groups of a zeroed memory name no array. -/
def InitialGroups (s : State) : Prop :=
  Initial s ∧ ∀ g, (s.rpc.fnGroups.fnGroups g).fnPtrArray = 0

/-- The group a thread is waiting or working for. -/
def groupOf : Pc → Option ℕ
  | .pending g => some g
  | .searching g _ => some g
  | .found g _ _ => some g
  | .holding g _ _ => some g
  | _ => none

/-- What holds of the function groups between steps. -/
structure Groups (sys : Platform) (owner : ℕ → ℕ) (rpc : BoxRpc) (pc : ℕ → Pc)
    (todo free groups : List ℕ) : Prop where
  /-- The pool of function groups is well formed. -/
  represents : Represents rpc.fnGroups.queues free (fun _ => groups)
  /-- Its lock is free between steps. -/
  lock : rpc.fnGroups.queues.pool.spinlock = false
  /-- A slot that names an array is queued or about to be. -/
  claimed : ∀ g, (rpc.fnGroups.fnGroups g).fnPtrArray ≠ 0 →
    g ∈ groups ∨ ∃ i, pc i = .publishing g
  /-- Threads create groups for their own arrays. -/
  creating : ∀ i fnPtrArray fnCount, pc i = .creating fnPtrArray fnCount →
    fnPtrArray ≠ 0 ∧ owner fnPtrArray = i
  /-- A group about to be queued is held by its thread. -/
  publishing : ∀ i g, pc i = .publishing g →
    Held rpc.fnGroups.queues free (fun _ => groups) g ∧
      owner (rpc.fnGroups.fnGroups g).fnPtrArray = i
  /-- Threads work for their own groups. -/
  member : ∀ i g, groupOf (pc i) = some g →
    g ∈ groups ∧ owner (rpc.fnGroups.fnGroups g).fnPtrArray = i
  /-- Waiting messages do not outnumber the count and the thread that is awake. -/
  balance : ∀ g ∈ groups, need sys todo rpc.incoming.messages (rpc.fnGroups.fnGroups g) ≤
    (rpc.fnGroups.fnGroups g).semaphore+
      cover sys todo rpc.incoming.messages g (rpc.fnGroups.fnGroups g)
        (pc (owner (rpc.fnGroups.fnGroups g).fnPtrArray))

/-- A box whose wake-ups are in balance. -/
def Balanced (sys : Platform) (owner : ℕ → ℕ) (s : State) : Prop :=
  ∃ free lists gfree groups, Inv s free lists ∧
    Groups sys owner s.rpc s.pc (lists .todo) gfree groups

theorem balanced_initial (sys : Platform) (owner : ℕ → ℕ) (s : State) (h : InitialGroups s) :
    Balanced sys owner s := by
  obtain ⟨hinit, hzero⟩ := h
  obtain ⟨free, lists, hinv⟩ := consistent_initial s hinit
  obtain ⟨⟨layout, rpc, hrpc⟩, hpc, -⟩ := hinit
  have hbox := initialize_describes layout rpc
  refine ⟨free, lists, initialLists.groupFree, initialLists.groups, hinv, ?_⟩
  refine ⟨hrpc ▸ hbox.fnGroups, by rw [hrpc]; rfl, ?_, ?_, ?_, ?_, ?_⟩
  · exact fun g hg => absurd (hzero g) hg
  · intro i fnPtrArray fnCount hi
    simp [hpc i] at hi
  · intro i g hi
    simp [hpc i] at hi
  · intro i g hi
    simp [hpc i, groupOf] at hi
  · intro g hg
    simp [initialLists] at hg

/-! ## Steps of a thread that leave the incoming messages alone -/

section Threads

variable {sys : Platform} {owner : ℕ → ℕ} {rpc : BoxRpc} {pc : ℕ → Pc}
  {todo free groups : List ℕ} {i : ℕ}

/-- Groups with the same functions have the same messages. -/
theorem queryForFnGroup_congr {group group' : FnGroup} (h : SameGroup group group')
    (msg : Message) : queryForFnGroup sys group' msg = queryForFnGroup sys group msg := by
  simp only [queryForFnGroup, h.1, h.2]

theorem need_congr {group group' : FnGroup} (h : SameGroup group group')
    (messages : ℕ → Message) :
    need sys todo messages group' = need sys todo messages group := by
  simp only [need, queryForFnGroup_congr h]

theorem cover_congr {group group' : FnGroup} (h : SameGroup group group')
    (messages : ℕ → Message) (g : ℕ) (pc : Pc) :
    cover sys todo messages g group' pc = cover sys todo messages g group pc := by
  cases pc <;> simp only [cover, queryForFnGroup_congr h]

/-- A thread moves without touching groups or messages. It may go to a new
group of its own, and it covers no less than before. -/
theorem Groups.move (h : Groups sys owner rpc pc todo free groups) {pc' : Pc}
    (hcreating : ∀ fnPtrArray fnCount, pc' = .creating fnPtrArray fnCount →
      fnPtrArray ≠ 0 ∧ owner fnPtrArray = i)
    (hpublishing : ∀ g, pc i ≠ .publishing g) (hpublishing' : ∀ g, pc' ≠ .publishing g)
    (hmember : ∀ g, groupOf pc' = some g →
      g ∈ groups ∧ owner (rpc.fnGroups.fnGroups g).fnPtrArray = i)
    (hcover : ∀ g ∈ groups, owner (rpc.fnGroups.fnGroups g).fnPtrArray = i →
      need sys todo rpc.incoming.messages (rpc.fnGroups.fnGroups g) ≤
        (rpc.fnGroups.fnGroups g).semaphore+
          cover sys todo rpc.incoming.messages g (rpc.fnGroups.fnGroups g) pc') :
    Groups sys owner rpc (Function.update pc i pc') todo free groups := by
  refine ⟨h.represents, h.lock, ?_, ?_, ?_, ?_, ?_⟩
  · intro g hg
    rcases h.claimed g hg with hg | ⟨j, hj⟩
    · exact Or.inl hg
    · have hji : j ≠ i := fun he => hpublishing g (he ▸ hj)
      exact Or.inr ⟨j, by rwa [Function.update_of_ne hji]⟩
  · intro j fnPtrArray fnCount hj
    rcases pc_update hj with ⟨rfl, he⟩ | ⟨-, hj⟩
    · exact hcreating fnPtrArray fnCount he
    · exact h.creating j fnPtrArray fnCount hj
  · intro j g hj
    rcases pc_update hj with ⟨-, he⟩ | ⟨-, hj⟩
    · exact absurd he (hpublishing' g)
    · exact h.publishing j g hj
  · intro j g hj
    by_cases hji : j = i
    · subst hji
      rw [Function.update_self] at hj
      exact hmember g hj
    · rw [Function.update_of_ne hji] at hj
      exact h.member j g hj
  · intro g hg
    by_cases ho : owner (rpc.fnGroups.fnGroups g).fnPtrArray = i
    · rw [ho, Function.update_self]
      exact hcover g hg ho
    · rw [Function.update_of_ne ho]
      exact h.balance g hg

/-- The balance of a group, seen from its thread. -/
theorem Groups.balance_own (h : Groups sys owner rpc pc todo free groups) {g : ℕ}
    (hg : g ∈ groups) (ho : owner (rpc.fnGroups.fnGroups g).fnPtrArray = i) :
    need sys todo rpc.incoming.messages (rpc.fnGroups.fnGroups g) ≤
      (rpc.fnGroups.fnGroups g).semaphore+
        cover sys todo rpc.incoming.messages g (rpc.fnGroups.fnGroups g) (pc i) := by
  have hb := h.balance g hg
  rwa [ho] at hb

/-- A thread that covers nothing goes where it covers nothing either. -/
theorem Groups.move_uncovered (h : Groups sys owner rpc pc todo free groups) {pc' : Pc}
    (hcreating : ∀ fnPtrArray fnCount, pc' = .creating fnPtrArray fnCount →
      fnPtrArray ≠ 0 ∧ owner fnPtrArray = i)
    (hpublishing : ∀ g, pc i ≠ .publishing g) (hpublishing' : ∀ g, pc' ≠ .publishing g)
    (hmember : ∀ g, groupOf pc' = some g →
      g ∈ groups ∧ owner (rpc.fnGroups.fnGroups g).fnPtrArray = i)
    (hcover : ∀ g ∈ groups, owner (rpc.fnGroups.fnGroups g).fnPtrArray = i →
      cover sys todo rpc.incoming.messages g (rpc.fnGroups.fnGroups g) (pc i) = 0) :
    Groups sys owner rpc (Function.update pc i pc') todo free groups := by
  refine h.move hcreating hpublishing hpublishing' hmember fun g hg ho => ?_
  have hb := h.balance_own hg ho
  rw [hcover g hg ho] at hb
  omega

/-- The lookup of an array finds a group that is queued. -/
theorem Groups.lookup (h : Groups sys owner rpc pc todo free groups) {fnPtrArray fnCount : ℕ}
    (hpc : pc i = .idle) (harray : fnPtrArray ≠ 0) (howner : owner fnPtrArray = i)
    {rpc' : BoxRpc} {pc' : Pc}
    (hs : handlerStep sys rpc (pc i) (.lookup fnPtrArray fnCount) = some (rpc', pc')) :
    Groups sys owner rpc' (Function.update pc i pc') todo free groups := by
  rw [hpc] at hs
  simp only [handlerStep] at hs
  split at hs
  · rename_i g hfind
    cases hs
    have hg : (rpc.fnGroups.fnGroups g).fnPtrArray = fnPtrArray := by
      have hq := List.find?_some hfind
      simpa using hq
    refine h.move_uncovered (by simp) (by simp [hpc]) (by simp) ?_ (by simp [hpc, cover])
    intro g' hg'
    cases hg'
    refine ⟨?_, hg ▸ howner⟩
    rcases h.claimed g (hg ▸ harray) with hmem | ⟨j, hj⟩
    · exact hmem
    · have ho := (h.publishing j g hj).2
      rw [hg, howner] at ho
      rw [← ho, hpc] at hj
      cases hj
  · cases hs
    refine h.move_uncovered ?_ (by simp [hpc]) (by simp) (by simp [groupOf]) (by simp [hpc, cover])
    intro array count he
    cases he
    exact ⟨harray, howner⟩

/-- Claiming a group takes a slot that nobody uses. -/
theorem Groups.claim (h : Groups sys owner rpc pc todo free groups) {fnPtrArray fnCount : ℕ}
    (hpc : pc i = .creating fnPtrArray fnCount) {rpc' : BoxRpc} {pc' : Pc}
    (hs : handlerStep sys rpc (pc i) .claim = some (rpc', pc')) :
    ∃ free', Groups sys owner rpc' (Function.update pc i pc') todo free' groups := by
  obtain ⟨harray, howner⟩ := h.creating i fnPtrArray fnCount hpc
  rw [hpc] at hs
  simp only [handlerStep, claimFunctionGroup, Option.map_map] at hs
  rw [allocate_of_free h.lock, Option.map_some] at hs
  cases free with
  | nil =>
    have hnum := h.represents.num_lt
    have hfull : rpc.fnGroups.queues.pool.num ≤ slotInvalid := by
      simp only [poolMaxValid, slotInvalid] at *
      omega
    rw [tryAllocate_nil h.represents h.lock] at hs
    simp only [Function.comp_apply, if_pos hfull] at hs
    cases hs
    exact ⟨[], h.move_uncovered (by simp) (by simp [hpc]) (by simp) (by simp [groupOf])
      (by simp [hpc, cover])⟩
  | cons g free' =>
    obtain ⟨hslot, hr, hheld⟩ := tryAllocate_cons h.represents h.lock
    have hlock : (uvisorPoolTryAllocate rpc.fnGroups.queues).2.pool.spinlock = false := by
      rw [uvisorPoolTryAllocate_spinlock, h.lock]
    have hnum : (uvisorPoolTryAllocate rpc.fnGroups.queues).2.pool.num =
      rpc.fnGroups.queues.pool.num := num_of_header () (header_uvisorPoolTryAllocate _)
    generalize uvisorPoolTryAllocate rpc.fnGroups.queues = claimed at *
    simp only [Function.comp_apply, hslot, if_neg (Nat.not_le.mpr hheld.1)] at hs
    cases hs
    have hgroups : ∀ k ∈ groups, k ≠ g := fun k hk he =>
      h.represents.free_disjoint () k hk (by simp [he])
    have hpublishing : ∀ j k, pc j = .publishing k → k ≠ g := fun j k hj he =>
      (h.publishing j k hj).1.2.1 (by simp [he])
    refine ⟨free', hr, hlock, ?_, ?_, ?_, ?_, ?_⟩
    · intro k hk
      by_cases hkg : k = g
      · exact Or.inr ⟨i, by rw [Function.update_self, hkg]; rfl⟩
      · have hold : (rpc.fnGroups.fnGroups k).fnPtrArray ≠ 0 := by
          simpa [writeFnGroup, hkg] using hk
        rcases h.claimed k hold with hmem | ⟨j, hj⟩
        · exact Or.inl hmem
        · have hji : j ≠ i := fun he => by simp [he, hpc] at hj
          exact Or.inr ⟨j, by rwa [Function.update_of_ne hji]⟩
    · intro j array count hj
      rcases pc_update hj with ⟨-, he⟩ | ⟨-, hj⟩
      · cases he
      · exact h.creating j array count hj
    · intro j k hj
      rcases pc_update hj with ⟨rfl, he⟩ | ⟨-, hj⟩
      · cases he
        exact ⟨hheld, by simpa [writeFnGroup] using howner⟩
      · obtain ⟨hk, ho⟩ := h.publishing j k hj
        have hkg := hpublishing j k hj
        refine ⟨⟨?_, fun hf => hk.2.1 (List.mem_cons_of_mem _ hf), hk.2.2⟩, ?_⟩
        · exact hnum.symm ▸ hk.1
        · simpa [writeFnGroup, hkg] using ho
    · intro j k hj
      have hold : groupOf (pc j) = some k := by
        by_cases hji : j = i
        · subst hji
          rw [Function.update_self] at hj
          cases hj
        · rwa [Function.update_of_ne hji] at hj
      obtain ⟨hk, ho⟩ := h.member j k hold
      exact ⟨hk, by simpa [writeFnGroup, hgroups k hk] using ho⟩
    · intro k hk
      have hb := h.balance k hk
      have hcover : cover sys todo rpc.incoming.messages k (rpc.fnGroups.fnGroups k)
          (Function.update pc i (.publishing g)
            (owner (rpc.fnGroups.fnGroups k).fnPtrArray)) =
          cover sys todo rpc.incoming.messages k (rpc.fnGroups.fnGroups k)
            (pc (owner (rpc.fnGroups.fnGroups k).fnPtrArray)) := by
        by_cases ho : owner (rpc.fnGroups.fnGroups k).fnPtrArray = i
        · rw [ho, Function.update_self, hpc]
          rfl
        · rw [Function.update_of_ne ho]
      rw [← hcover] at hb
      simpa [writeFnGroup, hgroups k hk] using hb

/-- Publishing a group makes it visible to deliveries, with its thread awake. -/
theorem Groups.publish (h : Groups sys owner rpc pc todo free groups) {g : ℕ}
    (hpc : pc i = .publishing g)
    (hneed : need sys todo rpc.incoming.messages (rpc.fnGroups.fnGroups g) ≤ 1)
    {rpc' : BoxRpc} {pc' : Pc} (hs : handlerStep sys rpc (pc i) .publish = some (rpc', pc')) :
    Groups sys owner rpc' (Function.update pc i pc') todo free (groups ++ [g]) := by
  obtain ⟨hheld, howner⟩ := h.publishing i g hpc
  obtain ⟨-, hr⟩ := tryEnqueue_held h.represents h.lock () hheld
  rw [update_unit] at hr
  have hlock : (uvisorPoolQueueTryEnqueue rpc.fnGroups.queues () g).2.pool.spinlock = false := by
    rw [uvisorPoolQueueTryEnqueue_spinlock, h.lock]
  have hnum : (uvisorPoolQueueTryEnqueue rpc.fnGroups.queues () g).2.pool.num =
    rpc.fnGroups.queues.pool.num := num_of_header () (header_uvisorPoolQueueTryEnqueue _ _ _)
  rw [hpc] at hs
  simp only [handlerStep, enqueueFunctionGroup, enqueue_of_free h.lock, Option.map_some] at hs
  cases hs
  refine ⟨hr, hlock, ?_, ?_, ?_, ?_, ?_⟩
  · intro k hk
    rcases h.claimed k hk with hmem | ⟨j, hj⟩
    · exact Or.inl (List.mem_append_left _ hmem)
    · by_cases hji : j = i
      · subst hji
        rw [hpc] at hj
        cases hj
        exact Or.inl (by simp)
      · exact Or.inr ⟨j, by rwa [Function.update_of_ne hji]⟩
  · intro j array count hj
    rcases pc_update hj with ⟨-, he⟩ | ⟨-, hj⟩
    · cases he
    · exact h.creating j array count hj
  · intro j k hj
    rcases pc_update hj with ⟨-, he⟩ | ⟨hji, hj⟩
    · cases he
    · obtain ⟨hk, ho⟩ := h.publishing j k hj
      have hkg : k ≠ g := fun he => hji (by rw [← ho, he, howner])
      refine ⟨⟨hnum.symm ▸ hk.1, hk.2.1, fun u hm => ?_⟩, ho⟩
      rw [List.mem_append, List.mem_singleton] at hm
      exact hm.elim (hk.2.2 u) hkg
  · intro j k hj
    by_cases hji : j = i
    · subst hji
      rw [Function.update_self] at hj
      cases hj
      exact ⟨by simp, howner⟩
    · rw [Function.update_of_ne hji] at hj
      obtain ⟨hk, ho⟩ := h.member j k hj
      exact ⟨List.mem_append_left _ hk, ho⟩
  · intro k hk
    change need sys todo rpc.incoming.messages (rpc.fnGroups.fnGroups k) ≤ _
    by_cases hkg : k = g
    · subst hkg
      dsimp only
      rw [howner, Function.update_self]
      simp only [cover, if_true]
      omega
    · have hmem : k ∈ groups := by
        rw [List.mem_append, List.mem_singleton] at hk
        exact hk.resolve_right hkg
      have hb := h.balance k hmem
      dsimp only
      by_cases ho : owner (rpc.fnGroups.fnGroups k).fnPtrArray = i
      · rw [ho, hpc] at hb
        rw [ho, Function.update_self]
        simp only [cover] at hb ⊢
        omega
      · rwa [Function.update_of_ne ho]

/-- Pending takes a count, and the thread is awake instead. -/
theorem Groups.pend (h : Groups sys owner rpc pc todo free groups) {g : ℕ}
    (hpc : pc i = .pending g) {rpc' : BoxRpc} {pc' : Pc}
    (hs : handlerStep sys rpc (pc i) .pend = some (rpc', pc')) :
    Groups sys owner rpc' (Function.update pc i pc') todo free groups := by
  obtain ⟨hg, howner⟩ := h.member i g (by simp [hpc, groupOf])
  rw [hpc] at hs
  simp only [handlerStep, pendFnGroup, Option.map_map] at hs
  obtain ⟨count, hcount, he⟩ := Option.map_eq_some_iff.mp hs
  cases he
  have hsem : (rpc.fnGroups.fnGroups g).semaphore = count+1 := by
    unfold semaphorePend at hcount
    split at hcount
    · cases hcount
      omega
    · cases hcount
  let group : FnGroup := {rpc.fnGroups.fnGroups g with semaphore := count}
  have hsame : ∀ k, SameGroup (rpc.fnGroups.fnGroups k)
      (Function.update rpc.fnGroups.fnGroups g group k) := by
    intro k
    by_cases hkg : k = g
    · subst hkg
      rw [Function.update_self]
      exact ⟨rfl, rfl⟩
    · rw [Function.update_of_ne hkg]
      exact ⟨rfl, rfl⟩
  refine ⟨h.represents, h.lock, ?_, ?_, ?_, ?_, ?_⟩
  · intro k hk
    have hold : (rpc.fnGroups.fnGroups k).fnPtrArray ≠ 0 := (hsame k).1 ▸ hk
    rcases h.claimed k hold with hmem | ⟨j, hj⟩
    · exact Or.inl hmem
    · have hji : j ≠ i := fun he => by simp [he, hpc] at hj
      exact Or.inr ⟨j, by rwa [Function.update_of_ne hji]⟩
  · intro j array n hj
    rcases pc_update hj with ⟨-, he⟩ | ⟨-, hj⟩
    · cases he
    · exact h.creating j array n hj
  · intro j k hj
    rcases pc_update hj with ⟨-, he⟩ | ⟨-, hj⟩
    · cases he
    · obtain ⟨hk, ho⟩ := h.publishing j k hj
      exact ⟨hk, (hsame k).1.symm ▸ ho⟩
  · intro j k hj
    by_cases hji : j = i
    · subst hji
      rw [Function.update_self] at hj
      cases hj
      exact ⟨hg, (hsame g).1.symm ▸ howner⟩
    · rw [Function.update_of_ne hji] at hj
      obtain ⟨hk, ho⟩ := h.member j k hj
      exact ⟨hk, (hsame k).1.symm ▸ ho⟩
  · intro k hk
    have hb := h.balance k hk
    change need sys todo rpc.incoming.messages (Function.update rpc.fnGroups.fnGroups g group k) ≤
      (Function.update rpc.fnGroups.fnGroups g group k).semaphore+
        cover sys todo rpc.incoming.messages k (Function.update rpc.fnGroups.fnGroups g group k)
          (Function.update pc i (.searching g false)
            (owner (Function.update rpc.fnGroups.fnGroups g group k).fnPtrArray))
    rw [need_congr (hsame k), cover_congr (hsame k), (hsame k).1]
    by_cases hkg : k = g
    · subst hkg
      rw [howner, hpc, hsem] at hb
      rw [howner, Function.update_self, Function.update_self]
      simp only [cover, if_true, group] at hb ⊢
      omega
    · rw [Function.update_of_ne hkg]
      by_cases ho : owner (rpc.fnGroups.fnGroups k).fnPtrArray = i
      · rw [ho, hpc] at hb
        rw [ho, Function.update_self]
        simp only [cover] at hb ⊢
        omega
      · rwa [Function.update_of_ne ho]

/-- A search ends with a message of the group in hand, or there is none. -/
theorem Groups.find (h : Groups sys owner rpc pc todo free groups) {g : ℕ} {first : Bool}
    {inFree : List ℕ} {lists : IncomingName → List ℕ} (htodo : lists .todo = todo)
    (hin : Represents rpc.incoming.queues inFree lists)
    (hl : rpc.incoming.queues.pool.spinlock = false) (hpc : pc i = .searching g first)
    {rpc' : BoxRpc} {pc' : Pc} (hs : handlerStep sys rpc (pc i) .find = some (rpc', pc')) :
    Groups sys owner rpc' (Function.update pc i pc') todo free groups := by
  obtain ⟨hg, howner⟩ := h.member i g (by simp [hpc, groupOf])
  rw [hpc] at hs
  simp only [handlerStep, findIncoming_eq sys _ hin hl, Option.map_some, htodo] at hs
  cases hfind : todo.find? fun slot =>
      queryForFnGroup sys (rpc.fnGroups.fnGroups g) (rpc.incoming.messages slot) with
  | none =>
    have hnum := hin.num_lt
    have hnone : rpc.incoming.queues.pool.num ≤ slotInvalid := by
      simp only [poolMaxValid, slotInvalid] at *
      omega
    have hneed : need sys todo rpc.incoming.messages (rpc.fnGroups.fnGroups g) = 0 := by
      rw [need, List.countP_eq_zero]
      exact List.find?_eq_none.mp hfind
    simp only [hfind, Option.getD_none, if_pos hnone] at hs
    cases hs
    refine h.move ?_ (by simp [hpc]) ?_ ?_ ?_
    · cases first <;> simp [unhandled]
    · cases first <;> simp [unhandled]
    · intro k hk
      cases first
      · cases hk
      · cases hk
        exact ⟨hg, howner⟩
    · intro k hk ho
      by_cases hkg : k = g
      · subst hkg
        omega
      · have hb := h.balance_own hk ho
        rw [hpc] at hb
        simp only [cover, if_neg (Ne.symm hkg)] at hb
        omega
  | some slot =>
    have hmem : slot ∈ todo := List.mem_of_find?_eq_some hfind
    have hlt : ¬rpc.incoming.queues.pool.num ≤ slot :=
      Nat.not_le.mpr (hin.lists_lt .todo slot (htodo ▸ hmem))
    have hquery := List.find?_some hfind
    simp only [hfind, Option.getD_some, if_neg hlt] at hs
    cases hs
    refine h.move (by simp) (by simp [hpc]) (by simp) ?_ ?_
    · intro k hk
      cases hk
      exact ⟨hg, howner⟩
    · intro k hk ho
      have hb := h.balance_own hk ho
      rw [hpc] at hb
      by_cases hkg : k = g
      · subst hkg
        simp only [cover, if_true] at hb
        simp only [cover, hmem, hquery, and_self, if_true]
        exact hb
      · simp only [cover, if_neg (Ne.symm hkg)] at hb
        omega

/-- A thread that has handled nothing waits again or returns. -/
theorem Groups.giveUp (h : Groups sys owner rpc pc todo free groups) {g : ℕ} (first : Bool)
    (hgroup : groupOf (pc i) = some g)
    (hcover : ∀ k ∈ groups, owner (rpc.fnGroups.fnGroups k).fnPtrArray = i →
      cover sys todo rpc.incoming.messages k (rpc.fnGroups.fnGroups k) (pc i) = 0) :
    Groups sys owner rpc (Function.update pc i (unhandled g first)) todo free groups := by
  obtain ⟨hg, howner⟩ := h.member i g hgroup
  refine h.move_uncovered ?_ ?_ ?_ ?_ hcover
  · cases first <;> simp [unhandled]
  · intro k hk
    rw [hk] at hgroup
    cases hgroup
  · cases first <;> simp [unhandled]
  · intro k hk
    cases first
    · cases hk
    · cases hk
      exact ⟨hg, howner⟩

/-! ## Steps on the incoming messages -/

/-- Whether a group can handle a message depends on its gateway only. -/
theorem queryForFnGroup_gateway {group : FnGroup} {msg msg' : Message}
    (h : msg'.gateway = msg.gateway) :
    queryForFnGroup sys group msg' = queryForFnGroup sys group msg := by
  simp only [queryForFnGroup, h]

/-- Writes that keep the gateways of the messages keep the balance. -/
theorem Groups.congr {rpc' : BoxRpc} (h : Groups sys owner rpc pc todo free groups)
    (hgroups : rpc'.fnGroups = rpc.fnGroups)
    (hgateway : ∀ slot, (rpc'.incoming.messages slot).gateway =
      (rpc.incoming.messages slot).gateway) :
    Groups sys owner rpc' pc todo free groups := by
  have hneed : ∀ group, need sys todo rpc'.incoming.messages group =
      need sys todo rpc.incoming.messages group := by
    intro group
    simp only [need, queryForFnGroup_gateway (hgateway _)]
  have hcover : ∀ g group q, cover sys todo rpc'.incoming.messages g group q =
      cover sys todo rpc.incoming.messages g group q := by
    intro g group q
    cases q <;> simp only [cover, queryForFnGroup_gateway (hgateway _)]
  refine ⟨hgroups ▸ h.represents, hgroups ▸ h.lock, hgroups ▸ h.claimed, h.creating,
    hgroups ▸ h.publishing, hgroups ▸ h.member, fun g hg => ?_⟩
  rw [hneed, hcover, hgroups]
  exact h.balance g hg

/-- The message in hand covers a group only if the group can handle it. -/
theorem cover_found_le {messages : ℕ → Message} {g k : ℕ} {group : FnGroup} (slot : ℕ)
    (first : Bool) {c : ℕ} :
    cover sys todo messages k group (.found g slot first) ≤
      c+if queryForFnGroup sys group (messages slot) = true then 1 else 0 := by
  simp only [cover]
  split
  · rename_i hk
    rw [if_pos hk.2.2]
    omega
  · omega

/-- Dequeuing a message uncovers a group only if the group can handle it. -/
theorem cover_erase_le {messages : ℕ → Message} {k : ℕ} {group : FnGroup} (slot : ℕ) (q : Pc) :
    cover sys todo messages k group q ≤
      cover sys (todo.erase slot) messages k group q+
        if queryForFnGroup sys group (messages slot) = true then 1 else 0 := by
  cases q with
  | found h t first =>
    by_cases hts : t = slot
    · subst hts
      exact cover_found_le t first
    · simp only [cover, List.mem_erase_of_ne hts]
      omega
  | _ =>
    simp only [cover]
    omega

/-- An appended message uncovers nothing. -/
theorem cover_append_le (sys : Platform) (g : ℕ) {messages messages' : ℕ → Message}
    (htodo : ∀ t ∈ todo, messages' t = messages t) (group : FnGroup) (slot : ℕ) (q : Pc) :
    cover sys todo messages g group q ≤ cover sys (todo ++ [slot]) messages' g group q := by
  cases q with
  | found h t first =>
    simp only [cover]
    split
    · rename_i hk
      rw [if_pos ⟨hk.1, List.mem_append_left _ hk.2.1, by rw [htodo t hk.2.1]; exact hk.2.2⟩]
    · omega
  | _ =>
    simp only [cover]
    omega

/-- A dequeued message no longer waits, and no thread has it in hand. -/
theorem Groups.took (h : Groups sys owner rpc pc todo free groups) {g slot : ℕ} {first : Bool}
    (hpc : pc i = .found g slot first) (hmem : slot ∈ todo) :
    Groups sys owner rpc (Function.update pc i (.holding g slot first)) (todo.erase slot) free
      groups := by
  obtain ⟨hg, howner⟩ := h.member i g (by simp [hpc, groupOf])
  refine ⟨h.represents, h.lock, ?_, ?_, ?_, ?_, fun k hk => ?_⟩
  · intro k hk
    rcases h.claimed k hk with hk | ⟨j, hj⟩
    · exact Or.inl hk
    · have hji : j ≠ i := fun he => by simp [he, hpc] at hj
      exact Or.inr ⟨j, by rwa [Function.update_of_ne hji]⟩
  · intro j array n hj
    rcases pc_update hj with ⟨-, he⟩ | ⟨-, hj⟩
    · cases he
    · exact h.creating j array n hj
  · intro j k hj
    rcases pc_update hj with ⟨-, he⟩ | ⟨-, hj⟩
    · cases he
    · exact h.publishing j k hj
  · intro j k hj
    by_cases hji : j = i
    · subst hji
      rw [Function.update_self] at hj
      cases hj
      exact ⟨hg, howner⟩
    · rw [Function.update_of_ne hji] at hj
      exact h.member j k hj
  · have hb := h.balance k hk
    generalize hgroup : rpc.fnGroups.fnGroups k = group at hb ⊢
    generalize howns : owner group.fnPtrArray = j at hb ⊢
    have hneed : need sys (todo.erase slot) rpc.incoming.messages group+
        (if queryForFnGroup sys group (rpc.incoming.messages slot) = true then 1 else 0) =
        need sys todo rpc.incoming.messages group := by
      rw [need, need, (List.perm_cons_erase hmem).countP_eq, List.countP_cons]
    have hcover : cover sys todo rpc.incoming.messages k group (pc j) ≤
        cover sys (todo.erase slot) rpc.incoming.messages k group
          (Function.update pc i (.holding g slot first) j)+
        (if queryForFnGroup sys group (rpc.incoming.messages slot) = true then 1 else 0) := by
      by_cases hji : j = i
      · subst hji
        rw [hpc, Function.update_self]
        exact cover_found_le slot first
      · rw [Function.update_of_ne hji]
        exact cover_erase_le slot (pc j)
    omega

/-- A delivery adds a waiting message and a count to every group it is for. -/
theorem Groups.delivered (h : Groups sys owner rpc pc todo free groups) {slot : ℕ}
    {rpc' : BoxRpc} {msg : Message} (hslot : slot ∉ todo)
    (hposted : Posted sys (sys.gateway msg.gateway).target groups rpc.fnGroups rpc'.fnGroups)
    (hmsg : (rpc'.incoming.messages slot).gateway = msg.gateway)
    (hothers : ∀ t, t ≠ slot → rpc'.incoming.messages t = rpc.incoming.messages t)
    (htimely : ∀ g ∈ groups, queryForFnGroup sys (rpc.fnGroups.fnGroups g) msg = true →
      need sys todo rpc.incoming.messages (rpc.fnGroups.fnGroups g) ≤
        cover sys todo rpc.incoming.messages g (rpc.fnGroups.fnGroups g)
          (pc (owner (rpc.fnGroups.fnGroups g).fnPtrArray))) :
    Groups sys owner rpc' pc (todo ++ [slot]) free groups := by
  have hsame := hposted.same
  refine ⟨hposted.queues ▸ h.represents, hposted.queues ▸ h.lock, ?_, h.creating, ?_, ?_,
    fun g hg => ?_⟩
  · exact fun g hg => h.claimed g ((hsame g).1 ▸ hg)
  · intro i g hi
    obtain ⟨hheld, ho⟩ := h.publishing i g hi
    exact ⟨hposted.queues ▸ hheld, (hsame g).1.symm ▸ ho⟩
  · intro i g hi
    obtain ⟨hg, ho⟩ := h.member i g hi
    exact ⟨hg, (hsame g).1.symm ▸ ho⟩
  · have hb := h.balance g hg
    have hle := hposted.semaphore_le g
    rw [need_congr (hsame g), cover_congr (hsame g), (hsame g).1]
    have htodo : ∀ t ∈ todo, rpc'.incoming.messages t = rpc.incoming.messages t :=
      fun t ht => hothers t fun he => hslot (he ▸ ht)
    have hneed : need sys (todo ++ [slot]) rpc'.incoming.messages (rpc.fnGroups.fnGroups g) =
        need sys todo rpc.incoming.messages (rpc.fnGroups.fnGroups g)+
          if queryForFnGroup sys (rpc.fnGroups.fnGroups g) msg = true then 1 else 0 := by
      rw [need, List.countP_append, List.countP_singleton, queryForFnGroup_gateway hmsg]
      congr 1
      exact List.countP_congr fun t ht => by rw [htodo t ht]
    have hcover := cover_append_le sys g htodo (rpc.fnGroups.fnGroups g) slot
      (pc (owner (rpc.fnGroups.fnGroups g).fnPtrArray))
    by_cases hq : queryForFnGroup sys (rpc.fnGroups.fnGroups g) msg = true
    · have hpos : 0 < (rpc'.fnGroups.fnGroups g).semaphore := by
        simp only [queryForFnGroup, List.any_eq_true, List.mem_range, decide_eq_true_eq] at hq
        obtain ⟨k, hk, htarget⟩ := hq
        exact hposted.available g hg k hk htarget.symm
      have ht := htimely g hg hq
      rw [if_pos hq] at hneed
      omega
    · rw [if_neg hq] at hneed
      omega

/-- A thread leaves the call of a target, or puts its message into the done
queue, without a group to cover. -/
theorem Groups.leave (h : Groups sys owner rpc pc todo free groups) {pc' : Pc}
    (hpublishing : ∀ g, pc i ≠ .publishing g) (hcover : ∀ g group,
      cover sys todo rpc.incoming.messages g group (pc i) = 0)
    (hpc' : (∃ slot, pc' = .ran slot) ∨ pc' = .idle) :
    Groups sys owner rpc (Function.update pc i pc') todo free groups := by
  refine h.move_uncovered ?_ hpublishing ?_ ?_ fun g _ _ => hcover g _
  · rcases hpc' with ⟨slot, rfl⟩ | rfl <;> simp
  · rcases hpc' with ⟨slot, rfl⟩ | rfl <;> simp
  · rcases hpc' with ⟨slot, rfl⟩ | rfl <;> simp [groupOf]

end Threads

/-! ## Runs -/

section Runs

variable {sys : Platform} {owner : ℕ → ℕ} {s : State} {free : List ℕ}
  {lists : IncomingName → List ℕ} {gfree groups : List ℕ}

/-- The monitor's view of the waiting messages is the described one. -/
theorem waitingFor_eq (h : Inv s free lists) (g : ℕ) :
    waitingFor sys s g =
      need sys (lists .todo) s.rpc.incoming.messages (s.rpc.fnGroups.fnGroups g) := by
  rw [waitingFor, Represents.queueSlots_eq h.represents]

/-- A step of a thread keeps the balance. -/
theorem Groups.handler (h : Groups sys owner s.rpc s.pc (lists .todo) gfree groups)
    (hinv : Inv s free lists) {i : ℕ} {next : HandlerStep} {rpc' : BoxRpc} {pc' : Pc}
    {lists' : IncomingName → List ℕ} (hone : OneHandler owner (.handler i next))
    (ha : Timely sys owner s (.handler i next))
    (hout : Outcome s.rpc free lists (s.pc i) rpc' pc' lists')
    (hs : handlerStep sys s.rpc (s.pc i) next = some (rpc', pc')) :
    ∃ gfree' groups',
      Groups sys owner rpc' (Function.update s.pc i pc') (lists' .todo) gfree' groups' := by
  have hsteps := hs
  generalize hpc : s.pc i = pc at hs hout
  cases pc with
  | idle =>
    cases next with
    | lookup fnPtrArray fnCount =>
      cases hout
      exact ⟨_, _, h.lookup hpc hone.1 hone.2 hsteps⟩
    | _ => cases hs
  | creating fnPtrArray fnCount =>
    cases next with
    | claim =>
      cases hout
      obtain ⟨gfree', hg⟩ := h.claim hpc hsteps
      exact ⟨gfree', groups, hg⟩
    | _ => cases hs
  | publishing g =>
    cases next with
    | publish =>
      cases hout
      have hneed := ha g (by simp [hpc, toPublish])
      rw [waitingFor_eq hinv] at hneed
      exact ⟨_, _, h.publish hpc hneed hsteps⟩
    | _ => cases hs
  | pending g =>
    cases next with
    | pend =>
      cases hout
      exact ⟨_, _, h.pend hpc hsteps⟩
    | timeout =>
      cases hout
      cases hs
      exact ⟨_, _, h.leave (by simp [hpc]) (by simp [hpc, cover]) (Or.inr rfl)⟩
    | _ => cases hs
  | searching g first =>
    cases next with
    | find =>
      cases hout
      exact ⟨_, _, h.find rfl hinv.represents hinv.lock hpc hsteps⟩
    | _ => cases hs
  | found g slot first =>
    cases next with
    | dequeue =>
      cases hout with
      | quiet hin hran htaken hfound =>
        have htodo : slot ∉ lists .todo := by
          intro hmem
          obtain ⟨queues, hd, -, -, hh⟩ := dequeueIncoming_mem hinv.represents hinv.lock hmem
          have hlt : ¬(withIncoming s.rpc queues).incoming.queues.pool.num ≤ slot := by
            rw [show (withIncoming s.rpc queues).incoming.queues.pool.num =
              s.rpc.incoming.queues.pool.num from num_of_header .todo hh]
            exact Nat.not_le.mpr (hinv.represents.lists_lt .todo slot hmem)
          simp only [handlerStep, hd, Option.map_some, if_neg hlt] at hs
          cases hs
          cases htaken
        have hdone : slot ∉ lists .done := by
          rw [← Represents.queueSlots_eq hinv.represents .done]
          exact ha slot (by simp [hpc, inHand])
        have hnone : ∀ q, slot ∉ lists q := by
          intro q
          cases q with
          | todo => exact htodo
          | done => exact hdone
        obtain ⟨status, hd, hstatus⟩ := dequeueIncoming_not_queued hinv.represents hinv.lock
          (hinv.found_lt i g slot first hpc) hnone
        simp only [handlerStep, hd, Option.map_some, if_pos hstatus] at hs
        cases hs
        exact ⟨gfree, groups, h.giveUp first (by simp [hpc, groupOf])
          (by simp [hpc, cover, htodo])⟩
      | took hmem hr hl hh =>
        refine ⟨gfree, groups, ?_⟩
        rw [Function.update_self]
        exact (h.took hpc hmem).congr rfl fun _ => rfl
    | _ => cases hs
  | holding g slot first =>
    cases next with
    | dispatch value =>
      cases hout with
      | quiet hin hran htaken hfound =>
        simp only [handlerStep] at hs
        split at hs
        · cases hs
          cases htaken
        · cases hs
          exact ⟨gfree, groups, h.giveUp first (by simp [hpc, groupOf]) (by simp [hpc, cover])⟩
      | called value =>
        refine ⟨gfree, groups, ?_⟩
        have hg := h.leave (i := i) (by simp [hpc]) (by simp [hpc, cover])
          (Or.inl ⟨slot, rfl⟩)
        refine hg.congr rfl fun t => ?_
        by_cases hts : t = slot
        · subst hts
          simp [storeResult, writeIncoming]
        · simp [storeResult, writeIncoming, hts]
    | _ => cases hs
  | ran slot =>
    cases next with
    | finish =>
      cases hout with
      | quiet hin hran htaken hfound => exact absurd rfl (hran slot)
      | put hr hl hh =>
        refine ⟨gfree, groups, ?_⟩
        have hg := h.leave (i := i) (by simp [hpc]) (by simp [hpc, cover]) (Or.inr rfl)
        exact hg.congr rfl fun _ => rfl
    | _ => cases hs

/-- Every timely step keeps the box in balance. -/
theorem balanced_step (s : State) (a : Action) (t : State) (h : Balanced sys owner s)
    (ha : OneHandler owner a ∧ Timely sys owner s a) (hs : step sys s a = some t) :
    Balanced sys owner t := by
  obtain ⟨free, lists, gfree, groups, hinv, hgroups⟩ := h
  cases a with
  | handler i next =>
    obtain ⟨⟨rpc', pc'⟩, hout, rfl⟩ := Option.map_eq_some_iff.mp hs
    have hstale : NoStaleDequeue s (.handler i next) := by
      cases next with
      | dequeue => exact ha.2
      | _ => trivial
    obtain ⟨lists', houtcome, hinv'⟩ := hinv.handler hstale hout
    obtain ⟨gfree', groups', hgroups'⟩ := hgroups.handler hinv ha.1 ha.2 houtcome hout
    exact ⟨free, lists', gfree', groups', hinv', hgroups'⟩
  | deliver msg callerBox =>
    obtain ⟨out, hout, rfl⟩ := Option.map_eq_some_iff.mp hs
    cases free with
    | nil =>
      rw [deliverTo_nil hinv.represents hinv.lock] at hout
      cases hout
      exact ⟨[], lists, gfree, groups, hinv, hgroups⟩
    | cons slot free =>
      obtain ⟨queues, groups', hslot, hrpc, hr, hl, hh, hwake⟩ :=
        deliverTo_cons hinv.represents hinv.lock hout
      obtain ⟨woken, hw, hposted⟩ := wakeUpHandlersForTarget_some sys
        (sys.gateway msg.gateway).target hgroups.represents
      rw [hw, Option.map_some] at hwake
      cases hwake
      refine ⟨free, Function.update lists .todo (lists .todo ++ [slot]), gfree, groups, ?_, ?_⟩
      · simp only [hslot]
        exact hinv.delivery (hrpc ▸ hr) (hrpc ▸ hl) (hrpc ▸ hh)
      · simp only [hslot, Function.update_self]
        refine hgroups.delivered ?_ (by rw [hrpc]; exact hposted) ?_ ?_ ?_
        · exact fun hm => hinv.represents.free_disjoint .todo slot hm (by simp)
        · rw [hrpc]
          simp [writeIncoming, calleeCopy]
        · intro t ht
          rw [hrpc]
          simp [writeIncoming, withIncoming, ht]
        · intro g hg hq
          have ht := ha.2 g (by rwa [Represents.queueSlots_eq hgroups.represents]) hq
          rw [waitingFor_eq hinv, awakeFor, Represents.queueSlots_eq hinv.represents] at ht
          exact ht
  | collect accepted =>
    cases hs
    cases hq : lists .done with
    | nil =>
      rw [collectFrom_nil hinv.represents hinv.lock hq]
      exact ⟨free, lists, gfree, groups, hinv, hgroups⟩
    | cons slot l =>
      obtain ⟨hr, hl, hh⟩ := collectFrom_cons hinv.represents hinv.lock hq accepted
      refine ⟨_, _, gfree, groups, hinv.collection hq accepted hr hl hh, ?_⟩
      exact hgroups.congr (collectFrom_fnGroups s.rpc accepted) (collectFrom_gateway s.rpc accepted)

/-- Where at most one element counts, there is only one. -/
theorem eq_of_countP_le_one {α : Type} {p : α → Bool} {l : List α} {a b : α}
    (h : l.countP p ≤ 1) (ha : a ∈ l) (hpa : p a = true) (hb : b ∈ l) (hpb : p b = true) :
    a = b := by
  rw [List.countP_eq_length_filter] at h
  have hfa : a ∈ l.filter p := List.mem_filter.mpr ⟨ha, hpa⟩
  have hfb : b ∈ l.filter p := List.mem_filter.mpr ⟨hb, hpb⟩
  cases hl : l.filter p with
  | nil =>
    rw [hl] at hfa
    cases hfa
  | cons x rest =>
    rw [hl, List.length_cons] at h
    have hrest : rest = [] := List.length_eq_zero_iff.mp (by omega)
    rw [hl, hrest, List.mem_singleton] at hfa hfb
    rw [hfa, hfb]

/-- In every run of timely steps, a message that waits for a group whose
semaphore is down and whose thread is not about to search is the one that the
thread has just found; and no thread that blocks on the semaphore of its group
can handle a waiting message. -/
theorem no_lost_wakeup
    (h : Reachable InitialGroups (step sys)
      (fun s a => OneHandler owner a ∧ Timely sys owner s a) s) :
    (∀ g ∈ queueSlots s.rpc.fnGroups.queues (), (s.rpc.fnGroups.fnGroups g).semaphore = 0 →
      (∀ i first, s.pc i ≠ .searching g first) →
      ∀ slot ∈ queueSlots s.rpc.incoming.queues .todo,
        queryForFnGroup sys (s.rpc.fnGroups.fnGroups g) (s.rpc.incoming.messages slot) = true →
        ∃ i first, s.pc i = .found g slot first) ∧
    ∀ i g, s.pc i = .pending g → (s.rpc.fnGroups.fnGroups g).semaphore = 0 →
      ∀ slot ∈ queueSlots s.rpc.incoming.queues .todo,
        queryForFnGroup sys (s.rpc.fnGroups.fnGroups g) (s.rpc.incoming.messages slot) =
          false := by
  obtain ⟨free, lists, gfree, groups, hinv, hgroups⟩ :=
    h.invariant (Balanced sys owner) (balanced_initial sys owner) balanced_step
  rw [Represents.queueSlots_eq hinv.represents, Represents.queueSlots_eq hgroups.represents]
  constructor
  · intro g hg hsem hsearch slot hslot hquery
    have hb := hgroups.balance g hg
    rw [hsem] at hb
    have hpos : 0 < need sys (lists .todo) s.rpc.incoming.messages (s.rpc.fnGroups.fnGroups g) :=
      List.countP_pos_iff.mpr ⟨slot, hslot, hquery⟩
    generalize hi : owner (s.rpc.fnGroups.fnGroups g).fnPtrArray = i at hb
    cases hpc : s.pc i with
    | searching k first =>
      rw [hpc] at hb
      by_cases hk : k = g
      · exact absurd (hk ▸ hpc) (hsearch i first)
      · simp only [cover, if_neg hk] at hb
        omega
    | found k t first =>
      rw [hpc] at hb
      simp only [cover] at hb
      split at hb
      · rename_i hk
        obtain ⟨rfl, ht, hmatch⟩ := hk
        have hone : need sys (lists .todo) s.rpc.incoming.messages
            (s.rpc.fnGroups.fnGroups k) ≤ 1 := by omega
        have hts : t = slot := eq_of_countP_le_one hone ht hmatch hslot hquery
        exact ⟨i, first, hts ▸ hpc⟩
      · omega
    | _ =>
      rw [hpc] at hb
      simp only [cover] at hb
      omega
  · intro i g hpc hsem slot hslot
    obtain ⟨hg, ho⟩ := hgroups.member i g (by simp [hpc, groupOf])
    have hb := hgroups.balance_own hg ho
    rw [hpc, hsem] at hb
    have hzero : need sys (lists .todo) s.rpc.incoming.messages (s.rpc.fnGroups.fnGroups g) = 0 := by
      simp only [cover] at hb
      omega
    rw [need, List.countP_eq_zero] at hzero
    exact Bool.not_eq_true _ ▸ hzero slot hslot

end Runs

/-! ## Two messages for one count -/

theorem quietBox_initialGroups : InitialGroups quietBox := by
  refine ⟨quietBox_initial, fun g => ?_⟩
  simp only [quietBox, bootedBoxes, uvisorInitializeRpcQueues]
  split <;> rfl

/-- Thread 0 registers its group and finds nothing yet. -/
def register : List Action :=
  [.handler 0 (.lookup 0x5000 1), .handler 0 .claim, .handler 0 .publish, .handler 0 .find]

/-- Thread 0 wakes up and handles a message. -/
def handleOne : List Action :=
  [.handler 0 .pend, .handler 0 .find, .handler 0 .dequeue, .handler 0 (.dispatch 7),
    .handler 0 .finish]

/-- A handled message leaves a thread that blocks with nothing to do. -/
theorem no_lost_wakeup_single :
    ∃ s : State, s.pc 0 = .pending 0 ∧ s.executed 0 = 1 ∧
      ∀ slot ∈ queueSlots s.rpc.incoming.queues .todo, queryForFnGroup threeBoxes
        (s.rpc.fnGroups.fnGroups 0) (s.rpc.incoming.messages slot) = false := by
  have hrun : ((execWithin (step threeBoxes)
      (fun s a => OneHandler (fun _ => 0) a ∧ Timely threeBoxes (fun _ => 0) s a)
      (register ++ .deliver sampleCall 0 :: handleOne ++ [.handler 0 (.lookup 0x5000 1)])
      quietBox).map fun s => (s.pc 0, s.executed 0, (s.rpc.fnGroups.fnGroups 0).semaphore)) =
      some (.pending 0, 1, 0) := by decide +kernel
  rw [Option.map_eq_some_iff] at hrun
  obtain ⟨s, hs, hstate⟩ := hrun
  simp only [Prod.mk.injEq] at hstate
  obtain ⟨hpc, hexec, hsem⟩ := hstate
  exact ⟨s, hpc, hexec, (no_lost_wakeup
    (execWithin_reachable (Reachable.start quietBox_initialGroups) hs)).2 0 0 hpc hsem⟩

/-- Two messages are delivered before thread 0 wakes up; it handles the first
one and waits again. -/
def twoForOne : List Action :=
  register ++ .deliver sampleCall 0 :: .deliver sampleCall 0 :: handleOne ++
    [.handler 0 (.lookup 0x5000 1)]

/-- Thread 0 then blocks although it can handle the second message. -/
theorem twoForOne_loses_wakeup :
    ∃ s, Reachable InitialGroups (step threeBoxes) (fun _ a => OneHandler (fun _ => 0) a) s ∧
      s.pc 0 = .pending 0 ∧ (s.rpc.fnGroups.fnGroups 0).semaphore = 0 ∧
      ∃ slot ∈ queueSlots s.rpc.incoming.queues .todo, queryForFnGroup threeBoxes
        (s.rpc.fnGroups.fnGroups 0) (s.rpc.incoming.messages slot) = true := by
  have hrun : ((execWithin (step threeBoxes) (fun _ a => OneHandler (fun _ => 0) a)
      twoForOne quietBox).map fun s => (s.pc 0, (s.rpc.fnGroups.fnGroups 0).semaphore,
        (queueSlots s.rpc.incoming.queues .todo).any fun slot => queryForFnGroup threeBoxes
          (s.rpc.fnGroups.fnGroups 0) (s.rpc.incoming.messages slot))) =
      some (.pending 0, 0, true) := by decide +kernel
  rw [Option.map_eq_some_iff] at hrun
  obtain ⟨s, hs, hstate⟩ := hrun
  simp only [Prod.mk.injEq, List.any_eq_true] at hstate
  obtain ⟨hpc, hsem, hwaiting⟩ := hstate
  exact ⟨s, execWithin_reachable (Reachable.start quietBox_initialGroups) hs, hpc, hsem, hwaiting⟩

end Uvisor.RpcWakeup
