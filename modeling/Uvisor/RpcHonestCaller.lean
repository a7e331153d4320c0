import Uvisor.RpcSystem

/-!
# The outgoing messages of an honest box

Each outgoing slot of a box that uses the library is free, held by one thread,
ready to be sent, sent to one callee, done, or taken by one thread again. The
phases follow from the box's own queue, semaphores and message states alone,
whatever the other boxes do and however often the counter wraps.
-/

namespace Uvisor.RpcHonestCaller

open PoolQueue PoolInvariant PoolOperations Rpc RpcApi RpcDescription RpcLibrary RpcSystem

/-- What an outgoing slot is used for. -/
inductive Phase where
  /-- Nothing. -/
  | free
  /-- A thread is about to fill its message in. -/
  | held
  /-- Its message has been filled in and not been delivered. -/
  | ready
  /-- Its message has been delivered to a box and not been completed. -/
  | sent (callee : ℕ)
  /-- Its message has been completed. -/
  | done
  /-- A thread is about to take the result and free the slot. -/
  | taken
  deriving DecidableEq

/-- The message has been filled in and not been completed. -/
def Phase.Live : Phase → Prop
  | .ready | .sent _ => True
  | _ => False

/-- What is known of a slot in each phase. -/
def SlotFits (msg : Message) (free queued : Prop) : Phase → Prop
  | .free => free ∧ msg.semaphore = 0 ∧ msg.state ≠ .sent
  | .held => ¬free ∧ ¬queued ∧ msg.semaphore = 0 ∧ msg.state ≠ .sent
  | .ready => ¬free ∧ msg.semaphore = 0 ∧ msg.state ≠ .sent
  | .sent callee =>
    ¬free ∧ ¬queued ∧ msg.semaphore = 0 ∧ msg.state = .sent ∧ msg.otherBoxId = callee
  | .done => ¬free ∧ ¬queued ∧ msg.semaphore ≤ 1 ∧ msg.state ≠ .sent
  | .taken => ¬free ∧ ¬queued ∧ msg.semaphore = 0 ∧ msg.state ≠ .sent

/-- The slot that only this thread may work on. -/
def ownedSlot : CallerPc → Option ℕ
  | .claimed _ _ slot | .counted _ _ slot _ | .filled _ slot | .woken _ slot
  | .finished _ slot _ => some slot
  | .idle | .queued _ _ | .waiting _ _ => none

/-- What is known where a thread stands. -/
def ThreadFits (num : ℕ) (out : List ℕ) (phase : ℕ → Phase) : CallerPc → Prop
  | .idle => True
  | .claimed _ _ slot | .counted _ _ slot _ => slot < num ∧ phase slot = .held
  | .filled _ slot => slot < num ∧ slot ∉ out ∧ phase slot = .ready
  | .queued _ slot | .waiting _ slot => slot < num
  | .woken _ slot | .finished _ slot _ => slot < num ∧ phase slot = .taken

/-- The slots of the outgoing queue. -/
structure Slots (o : Outgoing) (free out : List ℕ) (phase : ℕ → Phase) : Prop where
  /-- The pool is well formed. -/
  represents : Represents o.queues free (fun _ => out)
  /-- Nobody holds its lock between the steps. -/
  lock : o.queues.pool.spinlock = false
  /-- Every slot is as its phase says. -/
  slots : ∀ slot < o.queues.pool.num,
    SlotFits (o.messages slot) (slot ∈ free) (slot ∈ out) (phase slot)
  /-- Tokens name slots of the pool. -/
  cookies : ∀ slot < o.queues.pool.num,
    uvisorResultSlot (o.messages slot).matchCookie < o.queues.pool.num

/-- The calling threads. -/
structure Threads (num : ℕ) (out : List ℕ) (phase : ℕ → Phase) (callers : ℕ → CallerPc) :
    Prop where
  /-- Every thread is where the phase of its slot allows it to be. -/
  fits : ∀ t, ThreadFits num out phase (callers t)
  /-- No two threads own one slot. -/
  owners : ∀ t t' slot, ownedSlot (callers t) = some slot → ownedSlot (callers t') = some slot →
    t = t'

section Facts

variable {o o' : Outgoing} {free free' out out' : List ℕ} {phase : ℕ → Phase} {phase' : Phase}
  {callers : ℕ → CallerPc} {num slot t : ℕ} {pc : CallerPc} {msg' : Message}

/-- A queued slot is ready. -/
theorem Slots.queued (h : Slots o free out phase) (hs : slot ∈ out) : phase slot = .ready := by
  have hlt := h.represents.lists_lt () slot hs
  have hnot : slot ∉ free := h.represents.free_disjoint () slot hs
  have hfits := h.slots slot hlt
  cases hp : phase slot with
  | ready => rfl
  | free =>
    rw [hp] at hfits
    exact absurd hfits.1 hnot
  | _ =>
    rw [hp] at hfits
    exact absurd hs hfits.2.1

/-- The first free slot is in the free phase. -/
theorem Slots.free_phase (h : Slots o free out phase) (hs : slot ∈ free) : phase slot = .free := by
  have hfits := h.slots slot (h.represents.free_lt slot hs)
  cases hp : phase slot with
  | free => rfl
  | _ =>
    rw [hp] at hfits
    exact absurd hs hfits.1

/-- A change of one slot that leaves the others alone. -/
theorem Slots.change (h : Slots o free out phase) (hslot : slot < o.queues.pool.num)
    (hr : Represents o'.queues free' (fun _ => out')) (hl : o'.queues.pool.spinlock = false)
    (hh : header o'.queues = header o.queues)
    (hm : o'.messages = Function.update o.messages slot msg')
    (hfree : ∀ s, s ≠ slot → (s ∈ free' ↔ s ∈ free)) (hout : ∀ s, s ≠ slot → (s ∈ out' ↔ s ∈ out))
    (hfits : SlotFits msg' (slot ∈ free') (slot ∈ out') phase')
    (hcookie : uvisorResultSlot msg'.matchCookie < o.queues.pool.num) :
    Slots o' free' out' (Function.update phase slot phase') := by
  have hnum : o'.queues.pool.num = o.queues.pool.num := num_of_header () hh
  refine ⟨hr, hl, fun s hs => ?_, fun s hs => ?_⟩
  · rw [hnum] at hs
    rw [hm]
    by_cases hss : s = slot
    · subst hss
      simpa using hfits
    · rw [Function.update_of_ne hss, Function.update_of_ne hss, propext (hfree s hss),
        propext (hout s hss)]
      exact h.slots s hs
  · rw [hnum] at hs ⊢
    rw [hm]
    by_cases hss : s = slot
    · subst hss
      simpa using hcookie
    · rw [Function.update_of_ne hss]
      exact h.cookies s hs

/-- The waiting token of a message does not enter what is known of its slot. -/
theorem SlotFits.congr {msg : Message} {free queued : Prop} {phase : Phase}
    (h : SlotFits msg free queued phase) (cookie : ℕ) :
    SlotFits {msg with waitCookie := cookie} free queued phase := by
  cases phase <;> exact h

/-- Only the thread's own slot enters what is known of it. -/
theorem ThreadFits.congr {phase phase' : ℕ → Phase} (h : ThreadFits num out phase pc)
    (hphase : ∀ s, ownedSlot pc = some s → phase' s = phase s)
    (hout : ∀ s, ownedSlot pc = some s → (s ∈ out' ↔ s ∈ out)) :
    ThreadFits num out' phase' pc := by
  cases pc with
  | idle => trivial
  | queued sync s => exact h
  | waiting token s => exact h
  | filled sync s =>
    simp only [ThreadFits, hphase s rfl, hout s rfl] at h ⊢
    exact h
  | _ =>
    simp only [ThreadFits, hphase _ rfl] at h ⊢
    exact h

/-- A slot that a thread owns is held, ready but not queued, or taken. -/
theorem Threads.owned (h : Threads num out phase callers) (ht : ownedSlot (callers t) = some slot) :
    slot < num ∧ (phase slot = .held ∨ phase slot = .taken ∨ phase slot = .ready ∧ slot ∉ out) := by
  have hfits := h.fits t
  cases hpc : callers t with
  | idle => simp [hpc, ownedSlot] at ht
  | queued sync s => simp [hpc, ownedSlot] at ht
  | waiting token s => simp [hpc, ownedSlot] at ht
  | filled sync s =>
    rw [hpc] at ht hfits
    cases ht
    exact ⟨hfits.1, .inr (.inr ⟨hfits.2.2, hfits.2.1⟩)⟩
  | claimed call sync s =>
    rw [hpc] at ht hfits
    cases ht
    exact ⟨hfits.1, .inl hfits.2⟩
  | counted call sync s counter =>
    rw [hpc] at ht hfits
    cases ht
    exact ⟨hfits.1, .inl hfits.2⟩
  | woken token s =>
    rw [hpc] at ht hfits
    cases ht
    exact ⟨hfits.1, .inr (.inl hfits.2)⟩
  | finished token s value =>
    rw [hpc] at ht hfits
    cases ht
    exact ⟨hfits.1, .inr (.inl hfits.2)⟩

/-- A change of a slot that no thread owns leaves the threads in order. -/
theorem Threads.change (h : Threads num out phase callers)
    (halone : ∀ t, ownedSlot (callers t) ≠ some slot)
    (hout : ∀ s, s ≠ slot → (s ∈ out' ↔ s ∈ out)) :
    Threads num out' (Function.update phase slot phase') callers := by
  have hne : ∀ t s, ownedSlot (callers t) = some s → s ≠ slot := by
    rintro t s hs rfl
    exact halone t hs
  refine ⟨fun t => ?_, h.owners⟩
  exact (h.fits t).congr (fun s hs => Function.update_of_ne (hne t s hs) _ _)
    fun s hs => hout s (hne t s hs)

/-- A step of a thread that changes one slot leaves the other threads in order. -/
theorem Threads.move (h : Threads num out phase callers) {pc' : CallerPc}
    (halone : ∀ t', t' ≠ t → ownedSlot (callers t') ≠ some slot)
    (hout : ∀ s, s ≠ slot → (s ∈ out' ↔ s ∈ out))
    (hthread : ThreadFits num out' (Function.update phase slot phase') pc')
    (howned : ∀ s, ownedSlot pc' = some s → s = slot) :
    Threads num out' (Function.update phase slot phase') (Function.update callers t pc') := by
  refine ⟨fun t' => ?_, fun t₁ t₂ s h₁ h₂ => ?_⟩
  · by_cases htt : t' = t
    · subst htt
      simpa using hthread
    · rw [Function.update_of_ne htt]
      have hne : ∀ s, ownedSlot (callers t') = some s → s ≠ slot := by
        rintro s hs rfl
        exact halone t' htt hs
      exact (h.fits t').congr (fun s hs => Function.update_of_ne (hne s hs) _ _)
        fun s hs => hout s (hne s hs)
  · by_cases h₁t : t₁ = t <;> by_cases h₂t : t₂ = t
    · rw [h₁t, h₂t]
    · subst h₁t
      rw [Function.update_self] at h₁
      rw [Function.update_of_ne h₂t, howned s h₁] at h₂
      exact absurd h₂ (halone t₂ h₂t)
    · subst h₂t
      rw [Function.update_self] at h₂
      rw [Function.update_of_ne h₁t, howned s h₂] at h₁
      exact absurd h₁ (halone t₁ h₁t)
    · rw [Function.update_of_ne h₁t] at h₁
      rw [Function.update_of_ne h₂t] at h₂
      exact h.owners t₁ t₂ s h₁ h₂

/-- The owner of a slot is the only one. -/
theorem Threads.alone (h : Threads num out phase callers) (ht : ownedSlot (callers t) = some slot)
    (t' : ℕ) (htt : t' ≠ t) : ownedSlot (callers t') ≠ some slot :=
  fun ht' => htt (h.owners t' t slot ht' ht)

/-- Nobody owns a free slot, a queued one, or one whose message has been
delivered or completed. -/
theorem Threads.unowned (h : Threads num out phase callers)
    (hphase : phase slot = .free ∨ slot ∈ out ∧ phase slot = .ready ∨
      (∃ callee, phase slot = .sent callee) ∨ phase slot = .done) :
    ∀ t, ownedSlot (callers t) ≠ some slot := by
  intro t ht
  obtain ⟨-, howned⟩ := h.owned ht
  rcases hphase with hp | ⟨hq, hp⟩ | ⟨callee, hp⟩ | hp <;> simp [hp] at howned
  exact howned hq

end Facts

/-! ## Steps -/

/-- The calling side of the box: its slots, its threads and the tokens that
rpc_fncall_async has returned. -/
structure Fits (o : Outgoing) (free out : List ℕ) (phase : ℕ → Phase) (callers : ℕ → CallerPc)
    (tokens : List ℕ) : Prop where
  /-- The slots. -/
  slots : Slots o free out phase
  /-- The threads. -/
  threads : Threads o.queues.pool.num out phase callers
  /-- Tokens name slots of the pool. -/
  tokens : ∀ token ∈ tokens, uvisorResultSlot token < o.queues.pool.num

/-- The tokens after a step of a calling thread. -/
def noteToken (tokens : List ℕ) (rpc : BoxRpc) : CallerPc → CallerPc → List ℕ
  | .queued _ slot, .idle => (rpc.outgoing.messages slot).matchCookie :: tokens
  | _, _ => tokens

/-- What a step of a calling thread leaves behind: only filling a message in
makes a slot live. -/
def Moved (phase : ℕ → Phase) (rpc' : BoxRpc) (callers' : ℕ → CallerPc) (pc' : CallerPc)
    (tokens' : List ℕ) : Prop :=
  ∃ free' out' phase', Fits rpc'.outgoing free' out' phase' callers' tokens' ∧
    ∀ s, (phase' s).Live →
      phase' s = phase s ∨ phase' s = .ready ∧ ∃ sync, pc' = .filled sync s

section Steps

variable {rpc rpc' : BoxRpc} {free out : List ℕ} {phase : ℕ → Phase} {callers : ℕ → CallerPc}
  {tokens : List ℕ} {slot t : ℕ} {pc' : CallerPc}

/-- A step that changes the phase of no slot. -/
theorem Fits.moved_thread (h : Fits rpc.outgoing free out phase callers tokens)
    {tokens' : List ℕ} (hslots : Slots rpc'.outgoing free out phase)
    (hqueues : rpc'.outgoing.queues = rpc.outgoing.queues) (hthread : ThreadFits rpc.outgoing.queues.pool.num out phase pc')
    (howned : ∀ s, ownedSlot pc' = some s → ownedSlot (callers t) = some s)
    (htokens : ∀ token ∈ tokens', uvisorResultSlot token < rpc.outgoing.queues.pool.num) :
    Moved phase rpc' (Function.update callers t pc') pc' tokens' := by
  refine ⟨free, out, phase, ⟨hslots, ?_, hqueues ▸ htokens⟩, fun s _ => .inl rfl⟩
  rw [hqueues]
  refine ⟨fun t' => ?_, fun t₁ t₂ s h₁ h₂ => ?_⟩
  · by_cases htt : t' = t
    · subst htt
      simpa using hthread
    · rw [Function.update_of_ne htt]
      exact h.threads.fits t'
  · have hold : ∀ t', ownedSlot (Function.update callers t pc' t') = some s →
        ownedSlot (callers t') = some s := by
      intro t' ht'
      by_cases htt : t' = t
      · subst htt
        rw [Function.update_self] at ht'
        exact howned s ht'
      · rwa [Function.update_of_ne htt] at ht'
    exact h.threads.owners t₁ t₂ s (hold t₁ h₁) (hold t₂ h₂)

/-- A step that changes one slot. -/
theorem Fits.moved (h : Fits rpc.outgoing free out phase callers tokens)
    (hslot : slot < rpc.outgoing.queues.pool.num) (msg' : Message) (phase' : Phase)
    {free' out' : List ℕ} (hr : Represents rpc'.outgoing.queues free' (fun _ => out'))
    (hl : rpc'.outgoing.queues.pool.spinlock = false)
    (hh : header rpc'.outgoing.queues = header rpc.outgoing.queues)
    (hm : rpc'.outgoing.messages = Function.update rpc.outgoing.messages slot msg')
    (hfree : ∀ s, s ≠ slot → (s ∈ free' ↔ s ∈ free)) (hout : ∀ s, s ≠ slot → (s ∈ out' ↔ s ∈ out))
    (hfits : SlotFits msg' (slot ∈ free') (slot ∈ out') phase')
    (hcookie : uvisorResultSlot msg'.matchCookie < rpc.outgoing.queues.pool.num)
    (halone : ∀ t', t' ≠ t → ownedSlot (callers t') ≠ some slot)
    (hthread : ThreadFits rpc.outgoing.queues.pool.num out' (Function.update phase slot phase') pc')
    (howned : ∀ s, ownedSlot pc' = some s → s = slot)
    (hlive : phase'.Live → phase' = phase slot ∨ phase' = .ready ∧ ∃ sync, pc' = .filled sync slot) :
    Moved phase rpc' (Function.update callers t pc') pc' tokens := by
  have hnum : rpc'.outgoing.queues.pool.num = rpc.outgoing.queues.pool.num := num_of_header () hh
  refine ⟨free', out', Function.update phase slot phase',
    ⟨h.slots.change hslot hr hl hh hm hfree hout hfits hcookie, ?_, ?_⟩, fun s hs => ?_⟩
  · rw [hnum]
    exact h.threads.move halone hout hthread howned
  · rw [hnum]
    exact h.tokens
  · by_cases hss : s = slot
    · subst hss
      rw [Function.update_self] at hs ⊢
      exact hlive hs
    · exact .inl (Function.update_of_ne hss _ _)

/-- Claiming takes the first free slot, or changes nothing. -/
theorem moved_claim (h : Fits rpc.outgoing free out phase callers tokens) {call : Call}
    {sync : Bool} (hs : callerStep rpc .idle (.claim call sync) = some (rpc', pc')) :
    Moved phase rpc' (Function.update callers t pc') pc' tokens := by
  have hr := h.slots.represents
  have hnum := hr.num_lt
  simp only [callerStep] at hs
  cases free with
  | nil =>
    have hend : rpc.outgoing.queues.pool.num ≤ slotInvalid := by
      simp only [poolMaxValid, slotInvalid] at *
      omega
    rw [claimOutgoing_nil hr h.slots.lock, Option.map_some, if_pos hend] at hs
    cases hs
    exact h.moved_thread h.slots rfl trivial (by simp [ownedSlot]) h.tokens
  | cons slot free =>
    have hlt : slot < rpc.outgoing.queues.pool.num := hr.free_lt slot (by simp)
    obtain ⟨queues, hclaim, hr', hlock, hheader⟩ := claimOutgoing_cons hr h.slots.lock
    have hnum' : queues.pool.num = rpc.outgoing.queues.pool.num := num_of_header () hheader
    have hend : ¬(withOutgoing rpc queues).outgoing.queues.pool.num ≤ slot := by
      change ¬queues.pool.num ≤ slot
      omega
    rw [hclaim, Option.map_some, if_neg hend] at hs
    cases hs
    have hphase := h.slots.free_phase (List.mem_cons_self (a := slot))
    have hfits := h.slots.slots slot hlt
    rw [hphase] at hfits
    refine h.moved hlt (rpc.outgoing.messages slot) .held hr' hlock hheader
      (Function.update_eq_self _ _).symm (fun s hs => by simp [hs]) (fun _ _ => Iff.rfl) ?_
      (h.slots.cookies slot hlt) (fun t' _ => h.threads.unowned (.inl hphase) t') ?_
      (by simp [ownedSlot]) (by simp [Phase.Live])
    · exact ⟨(List.nodup_cons.mp hr.free_nodup).1,
        fun hm => hr.free_disjoint () slot hm (by simp), hfits.2⟩
    · exact ⟨hlt, Function.update_self _ _ _⟩

/-- Counting keeps the slot. -/
theorem moved_count (h : Fits rpc.outgoing free out phase callers tokens) {call : Call}
    {sync : Bool} (hpc : callers t = .claimed call sync slot)
    (hs : callerStep rpc (.claimed call sync slot) .count = some (rpc', pc')) :
    Moved phase rpc' (Function.update callers t pc') pc' tokens := by
  obtain ⟨hrpc, rfl⟩ := Prod.mk.inj (Option.some.inj hs)
  have hthread := h.threads.fits t
  rw [hpc] at hthread
  have hsame : rpc'.outgoing = rpc.outgoing := by
    rw [← hrpc]
    simp only [nextCounter]
  refine h.moved_thread (hsame ▸ h.slots) (by rw [hsame]) hthread ?_ h.tokens
  intro s hs
  rw [hpc]
  exact hs

/-- The slot of a token that has just been built. -/
theorem uvisorResultSlot_build (counter : ℕ) (hs : slot < 2^8) :
    uvisorResultSlot (uvisorResultBuild counter slot) = slot := by
  have hslots : resultSlotMask = 2^10-1 := by decide
  have hapart : resultCounterMask &&& resultSlotMask = 0 := by decide
  rw [uvisorResultSlot, uvisorResultBuild, Nat.and_or_distrib_right, Nat.and_assoc, hapart,
    Nat.and_zero, Nat.zero_or, Nat.and_assoc, Nat.and_self, hslots, Nat.and_two_pow_sub_one_eq_mod]
  omega

/-- Filling a message in makes it ready. -/
theorem moved_fill (h : Fits rpc.outgoing free out phase callers tokens) {call : Call}
    {sync : Bool} {counter : ℕ} (hpc : callers t = .counted call sync slot counter)
    (hs : callerStep rpc (.counted call sync slot counter) .fill = some (rpc', pc')) :
    Moved phase rpc' (Function.update callers t pc') pc' tokens := by
  cases hs
  have hthread := h.threads.fits t
  rw [hpc] at hthread
  obtain ⟨hlt, hphase⟩ := hthread
  have howned : ownedSlot (callers t) = some slot := by rw [hpc]; rfl
  have hfits := h.slots.slots slot hlt
  rw [hphase] at hfits
  obtain ⟨hfree, hout, hsem, -⟩ := hfits
  have hbyte : slot < 2^8 := by
    have hnum := h.slots.represents.num_lt
    simp only [poolMaxValid] at hnum
    omega
  refine h.moved hlt (populated (rpc.outgoing.messages slot) call counter slot) .ready
    h.slots.represents h.slots.lock rfl rfl (fun _ _ => Iff.rfl) (fun _ _ => Iff.rfl)
    ⟨hfree, hsem, by simp [populated]⟩ ?_ (h.threads.alone howned) ?_ ?_ fun _ => .inr ⟨rfl, sync, rfl⟩
  · exact (uvisorResultSlot_build counter hbyte).trans_lt hlt
  · exact ⟨hlt, hout, Function.update_self _ _ _⟩
  · intro s hs
    exact (Option.some.inj hs).symm

/-- Queuing puts the slot at the end of the queue. -/
theorem moved_enqueue (h : Fits rpc.outgoing free out phase callers tokens) {sync : Bool}
    (hpc : callers t = .filled sync slot)
    (hs : callerStep rpc (.filled sync slot) .enqueue = some (rpc', pc')) :
    Moved phase rpc' (Function.update callers t pc') pc' tokens := by
  have hthread := h.threads.fits t
  rw [hpc] at hthread
  obtain ⟨hlt, hout, hphase⟩ := hthread
  have howned : ownedSlot (callers t) = some slot := by rw [hpc]; rfl
  have hfits := h.slots.slots slot hlt
  rw [hphase] at hfits
  obtain ⟨queues, henq, hr, hlock, hheader⟩ := enqueueOutgoing_held h.slots.represents h.slots.lock
    ⟨hlt, hfits.1, fun _ => hout⟩
  simp only [callerStep, henq, Option.map_some] at hs
  cases hs
  refine h.moved hlt (rpc.outgoing.messages slot) .ready hr hlock hheader
    (Function.update_eq_self _ _).symm (fun _ _ => Iff.rfl) (fun s hs => by simp [hs]) hfits
    (h.slots.cookies slot hlt) (h.threads.alone howned) hlt (by simp [ownedSlot])
    fun _ => .inl hphase.symm

/-- Reading the token: a synchronous call goes on to wait, and an asynchronous
one hands it out. -/
theorem moved_readToken (h : Fits rpc.outgoing free out phase callers tokens) {sync : Bool}
    (hpc : callers t = .queued sync slot)
    (hs : callerStep rpc (.queued sync slot) .readToken = some (rpc', pc')) :
    Moved phase rpc' (Function.update callers t pc') pc'
      (noteToken tokens rpc (.queued sync slot) pc') := by
  have hlt := h.threads.fits t
  rw [hpc] at hlt
  have hcookie := h.slots.cookies slot hlt
  simp only [callerStep] at hs
  cases hs
  cases sync with
  | true => exact h.moved_thread h.slots rfl hcookie (by simp [ownedSlot]) h.tokens
  | false =>
    refine h.moved_thread h.slots rfl trivial (by simp [ownedSlot]) fun token htoken => ?_
    rcases List.mem_cons.mp htoken with rfl | htoken
    · exact hcookie
    · exact h.tokens token htoken

/-- A wait writes the waiting token only. -/
theorem moved_wait (h : Fits rpc.outgoing free out phase callers tokens) {result : ℕ}
    (hresult : result ∈ tokens)
    (hs : callerStep rpc .idle (.wait result) = some (rpc', pc')) :
    Moved phase rpc' (Function.update callers t pc') pc' tokens := by
  have hlt := h.tokens result hresult
  simp only [callerStep, claimWait] at hs
  split at hs
  · cases hs
    have hfits := h.slots.slots _ hlt
    have hcookie := h.slots.cookies _ hlt
    generalize uvisorResultSlot result = slot at *
    have hslots : Slots (writeOutgoing rpc slot {rpc.outgoing.messages slot with
        waitCookie := uvisorResultBuild resultInvalidCounter slot}).outgoing free out
        (Function.update phase slot (phase slot)) :=
      h.slots.change hlt h.slots.represents h.slots.lock rfl rfl (fun _ _ => Iff.rfl)
        (fun _ _ => Iff.rfl) (hfits.congr _) hcookie
    rw [Function.update_eq_self] at hslots
    exact h.moved_thread hslots rfl hlt (by simp [ownedSlot]) h.tokens
  · cases hs
    exact h.moved_thread h.slots rfl trivial (by simp [ownedSlot]) h.tokens

/-- A thread is woken up only when the message has been completed. -/
theorem moved_pend (h : Fits rpc.outgoing free out phase callers tokens) {token : ℕ}
    (hpc : callers t = .waiting token slot)
    (hs : callerStep rpc (.waiting token slot) .pend = some (rpc', pc')) :
    Moved phase rpc' (Function.update callers t pc') pc' tokens := by
  have hlt := h.threads.fits t
  rw [hpc] at hlt
  have hfits := h.slots.slots slot hlt
  simp only [callerStep, waitForRpcResult, Option.map_map] at hs
  obtain ⟨count, hcount, he⟩ := Option.map_eq_some_iff.mp hs
  cases he
  have hpos : 0 < (rpc.outgoing.messages slot).semaphore ∧
      count = (rpc.outgoing.messages slot).semaphore-1 := by
    unfold semaphorePend at hcount
    split at hcount
    · rename_i hpos
      exact ⟨hpos, (Option.some.inj hcount).symm⟩
    · cases hcount
  obtain ⟨hphase, hnotfree, hnotqueued, hle, hstate⟩ : phase slot = .done ∧ slot ∉ free ∧
      slot ∉ out ∧ (rpc.outgoing.messages slot).semaphore ≤ 1 ∧
      (rpc.outgoing.messages slot).state ≠ .sent := by
    cases hp : phase slot with
    | done =>
      rw [hp] at hfits
      exact ⟨rfl, hfits⟩
    | _ =>
      rw [hp] at hfits
      simp only [SlotFits] at hfits
      omega
  refine h.moved hlt {rpc.outgoing.messages slot with semaphore := count} .taken
    h.slots.represents h.slots.lock rfl rfl (fun _ _ => Iff.rfl) (fun _ _ => Iff.rfl)
    ⟨hnotfree, hnotqueued, by dsimp only; omega, hstate⟩ (h.slots.cookies slot hlt)
    (fun t' _ => h.threads.unowned (.inr (.inr (.inr hphase))) t')
    ⟨hlt, Function.update_self _ _ _⟩ ?_ (by simp [Phase.Live])
  intro s hs
  exact (Option.some.inj hs).symm

/-- Reading the result keeps the slot. -/
theorem moved_readResult (h : Fits rpc.outgoing free out phase callers tokens) {token : ℕ}
    (hpc : callers t = .woken token slot)
    (hs : callerStep rpc (.woken token slot) .readResult = some (rpc', pc')) :
    Moved phase rpc' (Function.update callers t pc') pc' tokens := by
  cases hs
  have hthread := h.threads.fits t
  rw [hpc] at hthread
  refine h.moved_thread h.slots rfl hthread ?_ h.tokens
  intro s hs
  rw [hpc]
  exact hs

/-- A slot is freed by the thread that has taken its result. -/
theorem moved_free (h : Fits rpc.outgoing free out phase callers tokens) {token value : ℕ}
    (hpc : callers t = .finished token slot value)
    (hs : callerStep rpc (.finished token slot value) .free = some (rpc', pc')) :
    Moved phase rpc' (Function.update callers t pc') pc' tokens := by
  have hthread := h.threads.fits t
  rw [hpc] at hthread
  obtain ⟨hlt, hphase⟩ := hthread
  have howned : ownedSlot (callers t) = some slot := by rw [hpc]; rfl
  have hfits := h.slots.slots slot hlt
  rw [hphase] at hfits
  obtain ⟨hnotfree, hnotqueued, hsem, hstate⟩ := hfits
  obtain ⟨queues, hfreed, hr, hlock, hheader⟩ := freeOutgoingMsg_held h.slots.represents
    h.slots.lock ⟨hlt, hnotfree, fun _ => hnotqueued⟩
  simp only [callerStep, hfreed, Option.map_some] at hs
  cases hs
  exact h.moved hlt (rpc.outgoing.messages slot) .free hr hlock hheader
    (Function.update_eq_self _ _).symm (fun s hs => by simp [hs]) (fun _ _ => Iff.rfl)
    ⟨List.mem_cons_self, hsem, hstate⟩ (h.slots.cookies slot hlt) (h.threads.alone howned) trivial
    (by simp [ownedSlot]) (by simp [Phase.Live])

/-- Every step of a calling thread leaves the calling side in order. -/
theorem callerStep_moved (h : Fits rpc.outgoing free out phase callers tokens) {next : CallerStep}
    (hs : callerStep rpc (callers t) next = some (rpc', pc'))
    (hhonest : ∀ result, next = .wait result → result ∈ tokens) :
    Moved phase rpc' (Function.update callers t pc') pc'
      (noteToken tokens rpc (callers t) pc') := by
  cases hpc : callers t with
  | idle =>
    rw [hpc] at hs
    cases next with
    | claim call sync => exact moved_claim h hs
    | wait result => exact moved_wait h (hhonest result rfl) hs
    | _ => cases hs
  | claimed call sync slot =>
    rw [hpc] at hs
    cases next with
    | count => exact moved_count h hpc hs
    | _ => cases hs
  | counted call sync slot counter =>
    rw [hpc] at hs
    cases next with
    | fill => exact moved_fill h hpc hs
    | _ => cases hs
  | filled sync slot =>
    rw [hpc] at hs
    cases next with
    | enqueue => exact moved_enqueue h hpc hs
    | _ => cases hs
  | queued sync slot =>
    rw [hpc] at hs
    cases next with
    | readToken => exact moved_readToken h hpc hs
    | _ => cases hs
  | waiting token slot =>
    rw [hpc] at hs
    cases next with
    | pend => exact moved_pend h hpc hs
    | _ => cases hs
  | woken token slot =>
    rw [hpc] at hs
    cases next with
    | readResult => exact moved_readResult h hpc hs
    | _ => cases hs
  | finished token slot value =>
    rw [hpc] at hs
    cases next with
    | free => exact moved_free h hpc hs
    | _ => cases hs

/-- A wait that times out leaves the box as it is. -/
theorem moved_timeout (h : Fits rpc.outgoing free out phase callers tokens) :
    Moved phase rpc (Function.update callers t .idle) .idle tokens :=
  h.moved_thread h.slots rfl trivial (by simp [ownedSlot]) h.tokens

end Steps

/-! ## Slots across a pass -/

section Passes

variable {o o' : Outgoing} {free out out' : List ℕ} {phase : ℕ → Phase} {callers : ℕ → CallerPc}
  {tokens : List ℕ} {slot : ℕ}

/-- A pass that changes the representation of the queue at most. -/
theorem Fits.pass_same (h : Fits o free out phase callers tokens)
    (hr : Represents o'.queues free (fun _ => out)) (hl : o'.queues.pool.spinlock = false)
    (hh : header o'.queues = header o.queues) (hm : o'.messages = o.messages) :
    Fits o' free out phase callers tokens := by
  have hnum : o'.queues.pool.num = o.queues.pool.num := num_of_header () hh
  refine ⟨⟨hr, hl, ?_, ?_⟩, ?_, ?_⟩
  · rw [hnum, hm]
    exact h.slots.slots
  · rw [hnum, hm]
    exact h.slots.cookies
  · rw [hnum]
    exact h.threads
  · rw [hnum]
    exact h.tokens

/-- A pass that changes one slot that no thread owns. -/
theorem Fits.pass (h : Fits o free out phase callers tokens) (hslot : slot < o.queues.pool.num)
    (msg' : Message) (next : Phase) (hr : Represents o'.queues free (fun _ => out'))
    (hl : o'.queues.pool.spinlock = false) (hh : header o'.queues = header o.queues)
    (hm : o'.messages = Function.update o.messages slot msg')
    (hout : ∀ s, s ≠ slot → (s ∈ out' ↔ s ∈ out))
    (hfits : SlotFits msg' (slot ∈ free) (slot ∈ out') next)
    (hcookie : msg'.matchCookie = (o.messages slot).matchCookie)
    (halone : ∀ t, ownedSlot (callers t) ≠ some slot) :
    Fits o' free out' (Function.update phase slot next) callers tokens := by
  have hnum : o'.queues.pool.num = o.queues.pool.num := num_of_header () hh
  have hrange := h.slots.cookies slot hslot
  rw [← hcookie] at hrange
  refine ⟨h.slots.change hslot hr hl hh hm (fun _ _ => Iff.rfl) hout hfits hrange, ?_, ?_⟩
  · rw [hnum]
    exact h.threads.change halone hout
  · rw [hnum]
    exact h.tokens

/-- A pass that leaves the dequeued message ready, in the queue or out of it. -/
theorem Fits.pass_ready {rest : List ℕ} (h : Fits o free (slot :: rest) phase callers tokens)
    (hr : Represents o'.queues free (fun _ => out')) (hl : o'.queues.pool.spinlock = false)
    (hh : header o'.queues = header o.queues) (hm : o'.messages = o.messages)
    (hout : ∀ s, s ≠ slot → (s ∈ out' ↔ s ∈ rest)) : Fits o' free out' phase callers tokens := by
  have hmem : slot ∈ slot :: rest := List.mem_cons_self
  have hready := h.slots.queued hmem
  have hlt := h.slots.represents.lists_lt () slot hmem
  have hfits := h.slots.slots slot hlt
  rw [hready] at hfits
  have hpass := h.pass hlt (o.messages slot) .ready hr hl hh
    (hm.trans (Function.update_eq_self _ _).symm)
    (fun s hs => by rw [hout s hs, List.mem_cons, or_iff_right hs]) hfits rfl
    (h.threads.unowned (.inr (.inl ⟨hmem, hready⟩)))
  rwa [← hready, Function.update_eq_self] at hpass

/-- A pass that delivers the dequeued message. -/
theorem Fits.pass_delivered {rest : List ℕ} {callee : ℕ}
    (h : Fits o free (slot :: rest) phase callers tokens)
    (hr : Represents o'.queues free (fun _ => rest)) (hl : o'.queues.pool.spinlock = false)
    (hh : header o'.queues = header o.queues)
    (hm : o'.messages = Function.update o.messages slot
      {o.messages slot with otherBoxId := callee, state := .sent}) :
    Fits o' free rest (Function.update phase slot (.sent callee)) callers tokens := by
  have hmem : slot ∈ slot :: rest := List.mem_cons_self
  have hready := h.slots.queued hmem
  have hlt := h.slots.represents.lists_lt () slot hmem
  have hnot : slot ∉ rest := (List.nodup_cons.mp (h.slots.represents.nodup ())).1
  have hfits := h.slots.slots slot hlt
  rw [hready] at hfits
  exact h.pass hlt _ (.sent callee) hr hl hh hm
    (fun s hs => by rw [List.mem_cons, or_iff_right hs])
    ⟨hfits.1, hnot, hfits.2.1, rfl, rfl⟩ rfl (h.threads.unowned (.inr (.inl ⟨hmem, hready⟩)))

/-- A message that waits for a box is in a slot sent to that box. -/
theorem Slots.sent_phase {callee : ℕ} (h : Slots o free out phase)
    (hslot : slot < o.queues.pool.num) (hstate : (o.messages slot).state = .sent)
    (hcallee : (o.messages slot).otherBoxId = callee) : phase slot = .sent callee := by
  have hfits := h.slots slot hslot
  cases hp : phase slot with
  | sent c =>
    rw [hp] at hfits
    obtain ⟨-, -, -, -, hother⟩ := hfits
    rw [hcallee] at hother
    rw [Int.natCast_inj.mp hother]
  | free =>
    rw [hp] at hfits
    exact absurd hstate hfits.2.2
  | ready =>
    rw [hp] at hfits
    exact absurd hstate hfits.2.2
  | _ =>
    rw [hp] at hfits
    exact absurd hstate hfits.2.2.2

/-- A pass that completes a sent message. -/
theorem Fits.pass_completed {callee count result : ℕ}
    (h : Fits o free out phase callers tokens) (hslot : slot < o.queues.pool.num)
    (hsent : phase slot = .sent callee) (hq : o'.queues = o.queues)
    (hm : o'.messages = Function.update o.messages slot
      {o.messages slot with result := result, state := .done, semaphore := count})
    (hcount : count = (o.messages slot).semaphore ∨
      count = semaphorePost (o.messages slot).semaphore) :
    Fits o' free out (Function.update phase slot .done) callers tokens := by
  have hfits := h.slots.slots slot hslot
  rw [hsent] at hfits
  obtain ⟨hfree, hqueued, hsem, -, -⟩ := hfits
  have hle : count ≤ 1 := by
    rw [hsem] at hcount
    rcases hcount with rfl | rfl
    · omega
    · simp [semaphorePost, semaphoreMaxCount]
  exact h.pass hslot _ .done (hq ▸ h.slots.represents) (hq ▸ h.slots.lock) (by rw [hq]) hm
    (fun _ _ => Iff.rfl) ⟨hfree, hqueued, hle, by simp⟩ rfl
    (h.threads.unowned (.inr (.inr (.inl ⟨callee, hsent⟩))))

end Passes

end Uvisor.RpcHonestCaller
