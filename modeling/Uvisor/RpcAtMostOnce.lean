import Uvisor.RpcHandlers

/-!
# At most one execution of a delivered message

As long as no thread dequeues a message that is in the done queue by then,
the slots taken by the threads are apart from each other and from both
queues. Every delivery is then executed at most once and finished at most
once. A thread that dequeues a finished message executes it again.
-/

namespace Uvisor.RpcAtMostOnce

open PoolQueue PoolInvariant PoolOperations Rpc RpcApi RpcDescription RpcLibrary RpcHandlers
  Execution

/-- The message a thread has found and not yet dequeued. -/
def inHand : Pc → Option ℕ
  | .found _ slot _ => some slot
  | _ => none

/-- The step does not dequeue a message that another thread has already put
into the done queue. -/
def NoStaleDequeue (s : State) : Action → Prop
  | .handler i .dequeue =>
    ∀ slot ∈ inHand (s.pc i), slot ∉ queueSlots s.rpc.incoming.queues .done
  | _ => True

instance (s : State) (a : Action) : Decidable (NoStaleDequeue s a) :=
  match a with
  | .handler i .dequeue =>
    inferInstanceAs (Decidable (∀ slot ∈ inHand (s.pc i),
      slot ∉ queueSlots s.rpc.incoming.queues .done))
  | .handler _ (.lookup _ _) => inferInstanceAs (Decidable True)
  | .handler _ .claim => inferInstanceAs (Decidable True)
  | .handler _ .publish => inferInstanceAs (Decidable True)
  | .handler _ .pend => inferInstanceAs (Decidable True)
  | .handler _ .timeout => inferInstanceAs (Decidable True)
  | .handler _ .find => inferInstanceAs (Decidable True)
  | .handler _ (.dispatch _) => inferInstanceAs (Decidable True)
  | .handler _ .finish => inferInstanceAs (Decidable True)
  | .deliver _ _ => inferInstanceAs (Decidable True)
  | .collect _ => inferInstanceAs (Decidable True)

/-- What holds between steps. -/
structure Inv (s : State) (free : List ℕ) (lists : IncomingName → List ℕ) : Prop where
  /-- The incoming pool and its queues are well formed. -/
  represents : Represents s.rpc.incoming.queues free lists
  /-- The lock is free between steps. -/
  lock : s.rpc.incoming.queues.pool.spinlock = false
  /-- Found slots are slots. -/
  found_lt : ∀ i group slot first, s.pc i = .found group slot first →
    slot < s.rpc.incoming.queues.pool.num
  /-- Taken slots are in no list. -/
  held : ∀ i slot, (s.pc i).taken = some slot → Held s.rpc.incoming.queues free lists slot
  /-- A slot is taken by one thread at most. -/
  owner : ∀ i j slot, (s.pc i).taken = some slot → (s.pc j).taken = some slot → i = j
  /-- Slots in use carry the number of an earlier delivery. -/
  label_lt : ∀ slot, slot < s.rpc.incoming.queues.pool.num → slot ∉ free →
    s.label slot < s.delivered
  /-- Slots in use carry different deliveries. -/
  label_inj : ∀ slot slot', slot < s.rpc.incoming.queues.pool.num →
    slot' < s.rpc.incoming.queues.pool.num → slot ∉ free → slot' ∉ free →
    s.label slot = s.label slot' → slot = slot'
  /-- Nothing has happened to future deliveries. -/
  future : ∀ n, s.delivered ≤ n → s.executed n = 0 ∧ s.finished n = 0
  /-- No delivery is executed or finished twice. -/
  once : ∀ n, s.executed n ≤ 1 ∧ s.finished n ≤ 1
  /-- Messages in the todo queue have not been executed. -/
  waiting : ∀ slot ∈ lists .todo, s.executed (s.label slot) = 0 ∧ s.finished (s.label slot) = 0
  /-- Neither have dequeued messages whose target has not been called. -/
  dequeued : ∀ i group slot first, s.pc i = .holding group slot first →
    s.executed (s.label slot) = 0 ∧ s.finished (s.label slot) = 0
  /-- Messages whose target has been called are not yet finished. -/
  called : ∀ i slot, s.pc i = .ran slot → s.finished (s.label slot) = 0

/-- A well-formed box whose history is consistent. -/
def Consistent (s : State) : Prop := ∃ free lists, Inv s free lists

theorem consistent_initial (s : State) (h : Initial s) : Consistent s := by
  obtain ⟨⟨layout, rpc, hrpc⟩, hpc, hdelivered, hexec, hfin⟩ := h
  have hbox := initialize_describes layout rpc
  have hall : ∀ slot, slot < s.rpc.incoming.queues.pool.num → slot ∈ initialLists.inFree := by
    intro slot hslot
    rw [hrpc] at hslot
    exact List.mem_range.mpr hslot
  refine ⟨initialLists.inFree, initialLists.incoming, ?_⟩
  refine ⟨hrpc ▸ hbox.incoming, hrpc ▸ hbox.incoming_lock, ?_, ?_, ?_, ?_, ?_, ?_, ?_, ?_, ?_, ?_⟩
  · intro i group slot first hi
    simp [hpc i] at hi
  · intro i slot hi
    simp [hpc i, Pc.taken] at hi
  · intro i j slot hi
    simp [hpc i, Pc.taken] at hi
  · intro slot hslot hfree
    exact absurd (hall slot hslot) hfree
  · intro slot slot' hslot _ hfree
    exact absurd (hall slot hslot) hfree
  · exact fun n _ => ⟨hexec n, hfin n⟩
  · intro n
    simp [hexec n, hfin n]
  · intro slot hslot
    simp [initialLists] at hslot
  · intro i group slot first hi
    simp [hpc i] at hi
  · intro i slot hi
    simp [hpc i] at hi

section Steps

variable {s : State} {free : List ℕ} {lists : IncomingName → List ℕ} {i : ℕ}

/-- Taken slots of the threads after one of them has moved. -/
theorem taken_update {pc : ℕ → Pc} {pc' : Pc} {j slot : ℕ}
    (h : (Function.update pc i pc' j).taken = some slot) :
    j = i ∧ pc'.taken = some slot ∨ j ≠ i ∧ (pc j).taken = some slot := by
  by_cases hj : j = i
  · subst hj
    rw [Function.update_self] at h
    exact Or.inl ⟨rfl, h⟩
  · rw [Function.update_of_ne hj] at h
    exact Or.inr ⟨hj, h⟩

/-- Positions of the threads after one of them has moved. -/
theorem pc_update {pc : ℕ → Pc} {pc' pc'' : Pc} {j : ℕ} (h : Function.update pc i pc' j = pc'') :
    j = i ∧ pc' = pc'' ∨ j ≠ i ∧ pc j = pc'' := by
  by_cases hj : j = i
  · subst hj
    rw [Function.update_self] at h
    exact Or.inl ⟨rfl, h⟩
  · rw [Function.update_of_ne hj] at h
    exact Or.inr ⟨hj, h⟩

/-- A held slot stays held when the lists grow by other slots only. -/
theorem held_mono {ι : Type} {m m' : PoolQueues ι} {free free' : List ℕ} {l l' : ι → List ℕ}
    {slot : ℕ} (h : Held m free l slot) (hnum : m'.pool.num = m.pool.num)
    (hfree : slot ∈ free' → slot ∈ free) (hlists : ∀ q, slot ∈ l' q → slot ∈ l q) :
    Held m' free' l' slot :=
  ⟨hnum ▸ h.1, fun hf => h.2.1 (hfree hf), fun q hq => h.2.2 q (hlists q hq)⟩

/-- A delivery other than the counted one. -/
theorem tally_of_ne {count : ℕ → ℕ} {n k : ℕ} (h : k ≠ n) : tally count n k = count k :=
  Function.update_of_ne h _ _

/-- Different slots in use carry different deliveries. -/
theorem Inv.label_ne (h : Inv s free lists) {slot slot' : ℕ}
    (hslot : slot < s.rpc.incoming.queues.pool.num) (hfree : slot ∉ free)
    (hslot' : slot' < s.rpc.incoming.queues.pool.num) (hfree' : slot' ∉ free)
    (hne : slot ≠ slot') : s.label slot ≠ s.label slot' :=
  fun he => hne (h.label_inj slot slot' hslot hslot' hfree hfree' he)

/-- A delivery that is counted for the first time is counted once. -/
theorem tally_le_one {count : ℕ → ℕ} {n : ℕ} (hfirst : count n = 0) (hall : ∀ k, count k ≤ 1)
    (k : ℕ) : tally count n k ≤ 1 := by
  by_cases hk : k = n
  · subst hk
    rw [tally, Function.update_self, hfirst]
  · rw [tally_of_ne hk]
    exact hall k

/-- Future deliveries are in no slot that is taken. -/
theorem Inv.future_ne (h : Inv s free lists) {slot n : ℕ}
    (hheld : Held s.rpc.incoming.queues free lists slot) (hn : s.delivered ≤ n) :
    n ≠ s.label slot := by
  have hlt := h.label_lt slot hheld.1 hheld.2.1
  omega

/-- Waiting messages carry other deliveries than the slots that are taken. -/
theorem Inv.waiting_ne (h : Inv s free lists) {slot t : ℕ}
    (hheld : Held s.rpc.incoming.queues free lists slot) (ht : t ∈ lists .todo) :
    s.label t ≠ s.label slot :=
  h.label_ne (h.represents.lists_lt .todo t ht) (h.represents.free_disjoint .todo t ht)
    hheld.1 hheld.2.1 fun he => hheld.2.2 .todo (he ▸ ht)

/-- Two threads have taken different slots. -/
theorem Inv.taken_ne (h : Inv s free lists) {slot j t : ℕ} (hslot : (s.pc i).taken = some slot)
    (hj : j ≠ i) (ht : (s.pc j).taken = some t) : t ≠ slot :=
  fun he => hj (h.owner j i slot (he ▸ ht) hslot)

/-- The slots carry different deliveries. -/
theorem Inv.taken_label_ne (h : Inv s free lists) {slot j t : ℕ}
    (hslot : (s.pc i).taken = some slot) (hj : j ≠ i) (ht : (s.pc j).taken = some t) :
    s.label t ≠ s.label slot := by
  have hheld := h.held i slot hslot
  have hheld' := h.held j t ht
  exact h.label_ne hheld'.1 hheld'.2.1 hheld.1 hheld.2.1 (h.taken_ne hslot hj ht)

/-- A step that neither writes the incoming messages nor takes one. -/
theorem Inv.quiet (h : Inv s free lists) {rpc' : BoxRpc} {pc' : Pc}
    (hin : rpc'.incoming = s.rpc.incoming) (htaken : pc'.taken = none)
    (hfound : ∀ group slot first, pc' = .found group slot first → slot ∈ lists .todo) :
    Inv {s with rpc := rpc', pc := Function.update s.pc i pc'} free lists := by
  have hkeep : ∀ j slot, (Function.update s.pc i pc' j).taken = some slot →
      (s.pc j).taken = some slot := by
    intro j slot hj
    rcases taken_update hj with ⟨-, ht⟩ | ⟨-, ht⟩
    · rw [htaken] at ht
      cases ht
    · exact ht
  have hold : ∀ j pc, pc.taken ≠ none → Function.update s.pc i pc' j = pc → s.pc j = pc := by
    intro j pc hpc hj
    rcases pc_update hj with ⟨-, rfl⟩ | ⟨-, hj⟩
    · exact absurd htaken hpc
    · exact hj
  refine ⟨?_, ?_, ?_, ?_, ?_, ?_, ?_, h.future, h.once, h.waiting, ?_, ?_⟩
  · exact hin ▸ h.represents
  · exact hin ▸ h.lock
  · intro j group slot first hj
    dsimp only at hj ⊢
    rw [hin]
    rcases pc_update hj with ⟨-, he⟩ | ⟨-, hj⟩
    · exact h.represents.lists_lt .todo slot (hfound group slot first he)
    · exact h.found_lt j group slot first hj
  · intro j slot hj
    dsimp only
    rw [hin]
    exact h.held j slot (hkeep j slot hj)
  · exact fun j k slot hj hk => h.owner j k slot (hkeep j slot hj) (hkeep k slot hk)
  · intro slot hslot
    dsimp only at hslot
    rw [hin] at hslot
    exact h.label_lt slot hslot
  · intro slot slot' hslot hslot'
    dsimp only at hslot hslot'
    rw [hin] at hslot hslot'
    exact h.label_inj slot slot' hslot hslot'
  · exact fun j group slot first hj =>
      h.dequeued j group slot first (hold j _ (by simp [Pc.taken]) hj)
  · exact fun j slot hj => h.called j slot (hold j _ (by simp [Pc.taken]) hj)

/-- A thread dequeues a message from the todo queue. -/
theorem Inv.took (h : Inv s free lists) {group slot : ℕ} {first : Bool}
    {queues : PoolQueues IncomingName} (hmem : slot ∈ lists .todo)
    (hr : Represents queues free (Function.update lists .todo ((lists .todo).erase slot)))
    (hl : queues.pool.spinlock = false) (hh : header queues = header s.rpc.incoming.queues) :
    Inv {s with
        rpc := withIncoming s.rpc queues,
        pc := Function.update s.pc i (.holding group slot first)} free
      (Function.update lists .todo ((lists .todo).erase slot)) := by
  have hnum : queues.pool.num = s.rpc.incoming.queues.pool.num := num_of_header .todo hh
  have hlists : ∀ q t, t ∈ Function.update lists .todo ((lists .todo).erase slot) q →
      t ∈ lists q := by
    intro q t ht
    cases q with
    | todo =>
      rw [Function.update_self] at ht
      exact List.mem_of_mem_erase ht
    | done => exact ht
  have hother : ∀ j t, (s.pc j).taken = some t → t ≠ slot := fun j t hj he =>
    (h.held j t hj).2.2 .todo (he ▸ hmem)
  refine ⟨hr, hl, ?_, ?_, ?_, ?_, ?_, h.future, h.once, ?_, ?_, ?_⟩
  · intro j g t f hj
    change t < queues.pool.num
    rw [hnum]
    rcases pc_update hj with ⟨-, he⟩ | ⟨-, hj⟩
    · cases he
    · exact h.found_lt j g t f hj
  · intro j t hj
    rcases taken_update hj with ⟨-, ht⟩ | ⟨-, ht⟩
    · cases ht
      exact held_of_erase h.represents hnum hmem
    · exact held_mono (h.held j t ht) hnum id fun q => hlists q t
  · intro j k t hj hk
    rcases taken_update hj with ⟨rfl, ht⟩ | ⟨-, ht⟩
    · cases ht
      rcases taken_update hk with ⟨rfl, -⟩ | ⟨-, ht'⟩
      · rfl
      · exact absurd rfl (hother k _ ht')
    · rcases taken_update hk with ⟨-, ht'⟩ | ⟨-, ht'⟩
      · cases ht'
        exact absurd rfl (hother j _ ht)
      · exact h.owner j k t ht ht'
  · intro t ht
    exact h.label_lt t (hnum ▸ ht)
  · intro t t' ht ht'
    exact h.label_inj t t' (hnum ▸ ht) (hnum ▸ ht')
  · exact fun t ht => h.waiting t (hlists .todo t ht)
  · intro j g t f hj
    rcases pc_update hj with ⟨-, he⟩ | ⟨-, hj⟩
    · cases he
      exact h.waiting slot hmem
    · exact h.dequeued j g t f hj
  · intro j t hj
    rcases pc_update hj with ⟨-, he⟩ | ⟨-, hj⟩
    · cases he
    · exact h.called j t hj

/-- A thread calls the target of the message it has dequeued. -/
theorem Inv.dispatched (h : Inv s free lists) {group slot : ℕ} {first : Bool} (value : ℕ)
    (hpc : s.pc i = .holding group slot first) :
    Inv {s with
        rpc := storeResult s.rpc slot value, pc := Function.update s.pc i (.ran slot),
        executed := tally s.executed (s.label slot)} free lists := by
  have hslot : (s.pc i).taken = some slot := by simp [hpc, Pc.taken]
  have hheld := h.held i slot hslot
  obtain ⟨hexec, hfin⟩ := h.dequeued i group slot first hpc
  refine ⟨h.represents, h.lock, ?_, ?_, ?_, h.label_lt, h.label_inj, ?_, ?_, ?_, ?_, ?_⟩
  · intro j g t f hj
    rcases pc_update hj with ⟨-, he⟩ | ⟨-, hj⟩
    · cases he
    · exact h.found_lt j g t f hj
  · intro j t hj
    rcases taken_update hj with ⟨-, ht⟩ | ⟨-, ht⟩
    · cases ht
      exact hheld
    · exact h.held j t ht
  · intro j k t hj hk
    apply h.owner j k t
    · rcases taken_update hj with ⟨rfl, ht⟩ | ⟨-, ht⟩
      · rw [hpc]
        exact ht
      · exact ht
    · rcases taken_update hk with ⟨rfl, ht⟩ | ⟨-, ht⟩
      · rw [hpc]
        exact ht
      · exact ht
  · intro n hn
    dsimp only
    rw [tally_of_ne (h.future_ne hheld hn)]
    exact h.future n hn
  · exact fun n => ⟨tally_le_one hexec (fun k => (h.once k).1) n, (h.once n).2⟩
  · intro t ht
    dsimp only
    rw [tally_of_ne (h.waiting_ne hheld ht)]
    exact h.waiting t ht
  · intro j g t f hj
    rcases pc_update hj with ⟨-, he⟩ | ⟨hji, hj⟩
    · cases he
    · dsimp only
      rw [tally_of_ne (h.taken_label_ne hslot hji (by simp [hj, Pc.taken]))]
      exact h.dequeued j g t f hj
  · intro j t hj
    rcases pc_update hj with ⟨-, he⟩ | ⟨-, hj⟩
    · cases he
      exact hfin
    · exact h.called j t hj

/-- A thread puts the message it has run into the done queue. -/
theorem Inv.put (h : Inv s free lists) {slot : ℕ} {queues : PoolQueues IncomingName}
    (hpc : s.pc i = .ran slot)
    (hr : Represents queues free (Function.update lists .done (lists .done ++ [slot])))
    (hl : queues.pool.spinlock = false) (hh : header queues = header s.rpc.incoming.queues) :
    Inv {s with
        rpc := withIncoming s.rpc queues, pc := Function.update s.pc i .idle,
        finished := tally s.finished (s.label slot)} free
      (Function.update lists .done (lists .done ++ [slot])) := by
  have hnum : queues.pool.num = s.rpc.incoming.queues.pool.num := num_of_header .todo hh
  have hslot : (s.pc i).taken = some slot := by simp [hpc, Pc.taken]
  have hheld := h.held i slot hslot
  have hfin := h.called i slot hpc
  have hkeep : ∀ j t, (Function.update s.pc i .idle j).taken = some t →
      j ≠ i ∧ (s.pc j).taken = some t := by
    intro j t hj
    rcases taken_update hj with ⟨-, ht⟩ | hj
    · cases ht
    · exact hj
  refine ⟨hr, hl, ?_, ?_, ?_, ?_, ?_, ?_, ?_, ?_, ?_, ?_⟩
  · intro j g t f hj
    change t < queues.pool.num
    rw [hnum]
    rcases pc_update hj with ⟨-, he⟩ | ⟨-, hj⟩
    · cases he
    · exact h.found_lt j g t f hj
  · intro j t hj
    obtain ⟨hji, ht⟩ := hkeep j t hj
    refine held_mono (h.held j t ht) hnum id fun q hq => ?_
    cases q with
    | todo => exact hq
    | done =>
      rw [Function.update_self, List.mem_append, List.mem_singleton] at hq
      exact hq.resolve_right (h.taken_ne hslot hji ht)
  · exact fun j k t hj hk => h.owner j k t (hkeep j t hj).2 (hkeep k t hk).2
  · intro t ht
    exact h.label_lt t (hnum ▸ ht)
  · intro t t' ht ht'
    exact h.label_inj t t' (hnum ▸ ht) (hnum ▸ ht')
  · intro n hn
    dsimp only
    rw [tally_of_ne (h.future_ne hheld hn)]
    exact h.future n hn
  · exact fun n => ⟨(h.once n).1, tally_le_one hfin (fun k => (h.once k).2) n⟩
  · intro t ht
    have htodo : t ∈ lists .todo := ht
    dsimp only
    rw [tally_of_ne (h.waiting_ne hheld htodo)]
    exact h.waiting t htodo
  · intro j g t f hj
    rcases pc_update hj with ⟨-, he⟩ | ⟨hji, hj⟩
    · cases he
    · dsimp only
      rw [tally_of_ne (h.taken_label_ne hslot hji (by simp [hj, Pc.taken]))]
      exact h.dequeued j g t f hj
  · intro j t hj
    rcases pc_update hj with ⟨-, he⟩ | ⟨hji, hj⟩
    · cases he
    · dsimp only
      rw [tally_of_ne (h.taken_label_ne hslot hji (by simp [hj, Pc.taken]))]
      exact h.called j t hj

/-- The monitor delivers a message into a free slot. -/
theorem Inv.delivery {slot : ℕ} (h : Inv s (slot :: free) lists) {rpc' : BoxRpc}
    (hr : Represents rpc'.incoming.queues free
      (Function.update lists .todo (lists .todo ++ [slot])))
    (hl : rpc'.incoming.queues.pool.spinlock = false)
    (hh : header rpc'.incoming.queues = header s.rpc.incoming.queues) :
    Inv {s with
        rpc := rpc', delivered := s.delivered+1, label := Function.update s.label slot s.delivered}
      free (Function.update lists .todo (lists .todo ++ [slot])) := by
  have hnum := num_of_header .todo hh
  have hfuture := h.future s.delivered (Nat.le_refl _)
  have htaken : ∀ j t, (s.pc j).taken = some t → t ≠ slot := fun j t hj he =>
    (h.held j t hj).2.1 (by simp [he])
  have holds : ∀ t, t ≠ slot → t ∉ free → t ∉ slot :: free := by
    intro t hne hf hm
    rcases List.mem_cons.mp hm with he | hm
    · exact hne he
    · exact hf hm
  refine ⟨hr, hl, ?_, ?_, h.owner, ?_, ?_, ?_, h.once, ?_, ?_, ?_⟩
  · intro j g t f hj
    dsimp only
    rw [hnum]
    exact h.found_lt j g t f hj
  · intro j t hj
    refine held_mono (h.held j t hj) hnum (List.mem_cons_of_mem _) fun q hq => ?_
    cases q with
    | todo =>
      rw [Function.update_self, List.mem_append, List.mem_singleton] at hq
      exact hq.resolve_right (htaken j t hj)
    | done => exact hq
  · intro t ht hf
    dsimp only at ht ⊢
    rw [hnum] at ht
    by_cases hts : t = slot
    · subst hts
      rw [Function.update_self]
      omega
    · rw [Function.update_of_ne hts]
      have hlt := h.label_lt t ht (holds t hts hf)
      omega
  · intro t t' ht ht' hf hf' he
    dsimp only at ht ht' he
    rw [hnum] at ht ht'
    by_cases hts : t = slot
    · by_cases hts' : t' = slot
      · rw [hts, hts']
      · rw [hts, Function.update_self, Function.update_of_ne hts'] at he
        have hlt := h.label_lt t' ht' (holds t' hts' hf')
        omega
    · by_cases hts' : t' = slot
      · rw [hts', Function.update_self, Function.update_of_ne hts] at he
        have hlt := h.label_lt t ht (holds t hts hf)
        omega
      · rw [Function.update_of_ne hts, Function.update_of_ne hts'] at he
        exact h.label_inj t t' ht ht' (holds t hts hf) (holds t' hts' hf') he
  · intro n hn
    dsimp only at hn
    exact h.future n (by omega)
  · intro t ht
    dsimp only
    by_cases hts : t = slot
    · subst hts
      rw [Function.update_self]
      exact hfuture
    · rw [Function.update_of_ne hts]
      rw [Function.update_self, List.mem_append, List.mem_singleton] at ht
      exact h.waiting t (ht.resolve_right hts)
  · intro j g t f hj
    dsimp only at hj ⊢
    rw [Function.update_of_ne (htaken j t (by simp [hj, Pc.taken]))]
    exact h.dequeued j g t f hj
  · intro j t hj
    dsimp only at hj ⊢
    rw [Function.update_of_ne (htaken j t (by simp [hj, Pc.taken]))]
    exact h.called j t hj

/-- The monitor collects a finished message. -/
theorem Inv.collection (h : Inv s free lists) {slot : ℕ} {l : List ℕ}
    (hq : lists .done = slot :: l) (accepted : Bool) {rpc' : BoxRpc}
    (hr : Represents rpc'.incoming.queues (if accepted then slot :: free else free)
      (Function.update lists .done l))
    (hl : rpc'.incoming.queues.pool.spinlock = false)
    (hh : header rpc'.incoming.queues = header s.rpc.incoming.queues) :
    Inv {s with rpc := rpc'} (if accepted then slot :: free else free)
      (Function.update lists .done l) := by
  have hnum := num_of_header .todo hh
  have hfree : ∀ t, t ∉ (if accepted then slot :: free else free) → t ∉ free := by
    intro t ht hf
    apply ht
    split
    · exact List.mem_cons_of_mem _ hf
    · exact hf
  refine ⟨hr, hl, ?_, ?_, h.owner, ?_, ?_, h.future, h.once, h.waiting, h.dequeued, h.called⟩
  · intro j g t f hj
    dsimp only
    rw [hnum]
    exact h.found_lt j g t f hj
  · intro j t hj
    have hheld := h.held j t hj
    refine held_mono hheld hnum (fun hf => ?_) fun q hm => ?_
    · split at hf
      · rcases List.mem_cons.mp hf with he | hf
        · exact absurd (by simp [hq, he]) (hheld.2.2 .done)
        · exact hf
      · exact hf
    · cases q with
      | todo => exact hm
      | done =>
        rw [Function.update_self] at hm
        rw [hq]
        exact List.mem_cons_of_mem _ hm
  · intro t ht hf
    dsimp only at ht
    rw [hnum] at ht
    exact h.label_lt t ht (hfree t hf)
  · intro t t' ht ht' hf hf'
    dsimp only at ht ht'
    rw [hnum] at ht ht'
    exact h.label_inj t t' ht ht' (hfree t hf) (hfree t' hf')

end Steps

/-! ## Runs -/

/-- A step of a thread has an outcome that keeps the invariant. -/
theorem Inv.handler {sys : Platform} {s : State} {free : List ℕ} {lists : IncomingName → List ℕ}
    {i : ℕ} {next : HandlerStep} {rpc' : BoxRpc} {pc' : Pc} (h : Inv s free lists)
    (ha : NoStaleDequeue s (.handler i next))
    (hs : handlerStep sys s.rpc (s.pc i) next = some (rpc', pc')) :
    ∃ lists', Outcome s.rpc free lists (s.pc i) rpc' pc' lists' ∧
      Inv {s with
        rpc := rpc', pc := Function.update s.pc i pc',
        executed := tallyRan s.executed s.label pc',
        finished := tallyRan s.finished s.label (s.pc i)} free lists' := by
  have hfound : ∀ group slot first, s.pc i = .found group slot first →
      slot < s.rpc.incoming.queues.pool.num ∧ slot ∉ lists .done := by
    intro group slot first hpc
    refine ⟨h.found_lt i group slot first hpc, ?_⟩
    rw [hpc] at hs
    have hnext := handlerStep_found hs
    subst hnext
    rw [← Represents.queueSlots_eq h.represents .done]
    exact ha slot (by simp [hpc, inHand])
  have hran : ∀ slot, s.pc i = .ran slot → Held s.rpc.incoming.queues free lists slot :=
    fun slot hpc => h.held i slot (by simp [hpc, Pc.taken])
  obtain ⟨lists', houtcome⟩ := handlerStep_outcome h.represents h.lock hfound hran hs
  refine ⟨lists', houtcome, ?_⟩
  generalize hpc : s.pc i = pc at houtcome
  cases houtcome with
  | quiet hin hpc' htaken hmem =>
    have hran' : ∀ slot, pc' ≠ .ran slot := fun slot he => by simp [he, Pc.taken] at htaken
    rw [tallyRan_of_ne hpc', tallyRan_of_ne hran']
    exact h.quiet hin htaken hmem
  | took hmem hr hl hh => exact h.took hmem hr hl hh
  | called value => exact h.dispatched value hpc
  | put hr hl hh => exact h.put hpc hr hl hh

/-- Every allowed step keeps the box consistent. -/
theorem consistent_step {sys : Platform} (s : State) (a : Action) (t : State) (h : Consistent s)
    (ha : NoStaleDequeue s a) (hs : step sys s a = some t) : Consistent t := by
  obtain ⟨free, lists, hinv⟩ := h
  cases a with
  | handler i next =>
    obtain ⟨out, hout, rfl⟩ := Option.map_eq_some_iff.mp hs
    obtain ⟨lists', -, hinv'⟩ := hinv.handler ha hout
    exact ⟨free, lists', hinv'⟩
  | deliver msg callerBox =>
    obtain ⟨out, hout, rfl⟩ := Option.map_eq_some_iff.mp hs
    cases free with
    | nil =>
      rw [deliverTo_nil hinv.represents hinv.lock] at hout
      cases hout
      exact ⟨[], lists, hinv⟩
    | cons slot free =>
      obtain ⟨queues, groups, hslot, hrpc, hr, hl, hh, -⟩ :=
        deliverTo_cons hinv.represents hinv.lock hout
      refine ⟨free, Function.update lists .todo (lists .todo ++ [slot]), ?_⟩
      simp only [hslot]
      exact hinv.delivery (hrpc ▸ hr) (hrpc ▸ hl) (hrpc ▸ hh)
  | collect accepted =>
    cases hs
    cases hq : lists .done with
    | nil =>
      rw [collectFrom_nil hinv.represents hinv.lock hq]
      exact ⟨free, lists, hinv⟩
    | cons slot l =>
      obtain ⟨hr, hl, hh⟩ := collectFrom_cons hinv.represents hinv.lock hq accepted
      exact ⟨_, _, hinv.collection hq accepted hr hl hh⟩

/-- In every run in which no thread dequeues a message that is in the done
queue by then, each delivered message is executed at most once and finished at
most once, and the two queues stay well formed and disjoint. -/
theorem executed_at_most_once {sys : Platform} {s : State}
    (h : Reachable Initial (step sys) NoStaleDequeue s) :
    (∀ n, s.executed n ≤ 1 ∧ s.finished n ≤ 1) ∧
      ∃ free lists, Represents s.rpc.incoming.queues free lists := by
  obtain ⟨free, lists, hinv⟩ := h.invariant Consistent consistent_initial consistent_step
  exact ⟨hinv.once, free, lists, hinv.represents⟩

/-! ## Two threads on one message -/

/-- A box of the small system with nothing delivered yet. -/
def quietBox : State :=
  ⟨bootedBoxes 1, fun _ => .idle, 0, fun _ => 0, fun _ => 0, fun _ => 0⟩

theorem quietBox_initial : Initial quietBox :=
  ⟨⟨smallLayout 1, zeroBox, rfl⟩, fun _ => rfl, rfl, fun _ => rfl, fun _ => rfl⟩

/-- A call from box 0. -/
def sampleCall : Message := populated (zeroBox.outgoing.messages 0) ⟨1, 2, 3, 4, 0x2000⟩ 0x800 0

/-- A thread registers a function group and finds a message. -/
def registerAndFind (thread fnPtrArray : ℕ) : List Action :=
  [.handler thread (.lookup fnPtrArray 1), .handler thread .claim, .handler thread .publish,
    .handler thread .find]

/-- A thread dequeues the message it has found and calls its target. -/
def dequeueAndCall (thread : ℕ) : List Action :=
  [.handler thread .dequeue, .handler thread (.dispatch 7)]

/-- One thread alone handles a call once. -/
theorem executed_at_most_once_alone :
    ∃ s : State, s.executed 0 = 1 ∧ s.finished 0 = 1 ∧ (∀ n, s.executed n ≤ 1 ∧ s.finished n ≤ 1) ∧
      ∃ free lists, Represents s.rpc.incoming.queues free lists := by
  have hrun : ((execWithin (step threeBoxes) NoStaleDequeue
      (.deliver sampleCall 0 :: registerAndFind 0 0x5000 ++ dequeueAndCall 0 ++
        [.handler 0 .finish]) quietBox).map fun s => (s.executed 0, s.finished 0)) =
      some (1, 1) := by decide
  rw [Option.map_eq_some_iff] at hrun
  obtain ⟨s, hs, hboth⟩ := hrun
  obtain ⟨hexec, hfin⟩ := Prod.mk.inj hboth
  exact ⟨s, hexec, hfin, executed_at_most_once
    (execWithin_reachable (Reachable.start quietBox_initial) hs)⟩

/-- Two threads find the same message; one of them executes and finishes it,
and then the other one dequeues and executes it. -/
def overlap : List Action :=
  .deliver sampleCall 0 :: registerAndFind 0 0x5000 ++ registerAndFind 1 0x6000 ++
    dequeueAndCall 1 ++ [.handler 1 .finish] ++ dequeueAndCall 0

/-- The message has then been executed twice. -/
theorem overlap_executes_twice :
    ∃ s, Reachable Initial (step threeBoxes) (fun _ _ => True) s ∧ s.executed 0 = 2 := by
  have hrun : ((exec (step threeBoxes) overlap quietBox).map fun s => s.executed 0) = some 2 := by
    decide
  rw [Option.map_eq_some_iff] at hrun
  obtain ⟨s, hs, htwice⟩ := hrun
  exact ⟨s, exec_reachable (Reachable.start quietBox_initial) hs, htwice⟩

end Uvisor.RpcAtMostOnce
