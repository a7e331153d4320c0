import Uvisor.RpcPasses

/-!
# The calling side of a box

Every outgoing slot is free, claimed, or used for one call that has come some
way. What the slot's message holds, who may look at it and what the account
says about its token follow from how far the call has come. A step of a
calling thread moves one slot on, and no other slot, thread or token is
affected.
-/

namespace Uvisor.RpcCallers

open PoolQueue PoolInvariant PoolOperations Rpc RpcApi RpcDescription RpcLibrary RpcSystem

/-! ## Tokens -/

/-- Tokens of a box with fewer than 2^21 sends have the number of the send
above the slot. -/
theorem uvisorResultBuild_counter {n slot : ℕ} (hn : n < 2^21) (hs : slot < 2^10) :
    uvisorResultBuild (wrap (n*resultCounterIncrement)) slot = n*2^11+slot := by
  have hcounter : wrap (n*resultCounterIncrement) = (n*2) <<< 10 := by
    simp only [wrap, resultCounterIncrement, resultSlotBits, Nat.shiftLeft_eq]
    omega
  have hmask : resultCounterMask = (2^22-1) <<< 10 := by decide
  have hslots : resultSlotMask = 2^10-1 := by decide
  have hlt : n*2 < 2^22 := by omega
  rw [uvisorResultBuild, hcounter, hmask, hslots, ← Nat.shiftLeft_and_distrib,
    Nat.and_two_pow_sub_one_eq_mod, Nat.and_two_pow_sub_one_eq_mod, Nat.mod_eq_of_lt hlt,
    Nat.mod_eq_of_lt hs, ← Nat.shiftLeft_add_eq_or_of_lt hs, Nat.shiftLeft_eq]
  omega

/-- The slot of a token. -/
theorem uvisorResultSlot_of_mod {token slot : ℕ} (h : token%2^11 = slot) (hs : slot < 2^8) :
    uvisorResultSlot token = slot := by
  have hslots : resultSlotMask = 2^10-1 := by decide
  rw [uvisorResultSlot, hslots, Nat.and_two_pow_sub_one_eq_mod]
  omega

/-- Invalid tokens differ from those of calls in one bit. -/
theorem invalid_mod (slot : ℕ) :
    2^10 ≤ uvisorResultBuild resultInvalidCounter slot%2^11 := by
  have hmask : resultInvalidCounter &&& resultCounterMask = (2^22-1) <<< 10 := by decide
  have hslots : resultSlotMask = 2^10-1 := by decide
  have hlt : slot%2^10 < 2^10 := Nat.mod_lt _ (by decide)
  rw [uvisorResultBuild, hmask, hslots, Nat.and_two_pow_sub_one_eq_mod,
    ← Nat.shiftLeft_add_eq_or_of_lt hlt, Nat.shiftLeft_eq]
  omega

/-! ## How far a call has come -/

/-- How far a call has come. -/
inductive Stage where
  /-- It has a token. -/
  | numbered
  /-- Its message is filled in. -/
  | ready
  /-- It has been delivered into a slot of a callee. -/
  | sent (callee calleeSlot : ℕ)
  /-- Its result has been copied back. -/
  | done (value : ℕ)
  /-- A thread has been woken up to take the result. -/
  | taken (value : ℕ)
  deriving DecidableEq

/-- The message has not been delivered. -/
def Stage.Unsent : Stage → Prop
  | .numbered | .ready => True
  | _ => False

/-- The result can still be waited for. -/
def Stage.Pending : Stage → Prop
  | .ready | .sent _ _ | .done _ => True
  | _ => False

/-- The value that has come back. -/
def Stage.value : Stage → Option ℕ
  | .done value | .taken value => some value
  | _ => none

/-- What an outgoing slot is used for. -/
inductive Phase where
  /-- Nothing. -/
  | free
  /-- A call without a token. -/
  | claimed
  /-- A call with a token. -/
  | busy (token : ℕ) (call : Call) (stage : Stage)
  deriving DecidableEq

/-- The call that a message carries. -/
def callOf (msg : Message) : Call := ⟨msg.p0, msg.p1, msg.p2, msg.p3, msg.gateway⟩

/-- What the message of a slot holds at each stage. -/
def StageFits (msg : Message) (queued : Prop) (token : ℕ) (call : Call) : Stage → Prop
  | .numbered => ¬queued ∧ msg.semaphore = 0
  | .ready => msg.semaphore = 0 ∧ msg.matchCookie = token ∧ callOf msg = call
  | .sent callee _ => ¬queued ∧ msg.semaphore = 0 ∧ msg.matchCookie = token ∧
      msg.state = .sent ∧ msg.otherBoxId = callee
  | .done value => ¬queued ∧ msg.semaphore = 1 ∧ msg.matchCookie = token ∧ msg.result = value
  | .taken value => ¬queued ∧ msg.semaphore = 0 ∧ msg.result = value

/-- What is known of a slot in each phase. -/
def SlotFits (msg : Message) (free queued : Prop) (account : Account) (slot : ℕ) : Phase → Prop
  | .free => free ∧ msg.semaphore = 0
  | .claimed => ¬free ∧ ¬queued ∧ msg.semaphore = 0
  | .busy token call stage => ¬free ∧ account.occupant slot = some token ∧ token%2^11 = slot ∧
      account.issued token = [call] ∧ account.returned token = [] ∧
      StageFits msg queued token call stage

/-- The slot a thread works on. -/
def workSlot : CallerPc → Option ℕ
  | .idle => none
  | .claimed _ _ slot | .counted _ _ slot _ | .filled _ slot | .queued _ slot | .waiting _ slot
  | .woken _ slot | .finished _ slot _ => some slot

/-- What is known where a thread stands. -/
def ThreadFits (num : ℕ) (out : List ℕ) (account : Account) (phase : ℕ → Phase) : CallerPc → Prop
  | .idle => True
  | .claimed _ _ slot => slot < num ∧ phase slot = .claimed
  | .counted call _ slot counter => slot < num ∧
      phase slot = .busy (uvisorResultBuild counter slot) call .numbered ∧
      uvisorResultBuild counter slot ∉ account.tokens
  | .filled _ slot => slot < num ∧ slot ∉ out ∧ ∃ token call, phase slot = .busy token call .ready
  | .queued _ slot => slot < num ∧
      ∃ token call stage, phase slot = .busy token call stage ∧ stage.Pending
  | .waiting token slot => slot < num ∧
      ∃ call stage, phase slot = .busy token call stage ∧ stage.Pending
  | .woken token slot => slot < num ∧ ∃ call value, phase slot = .busy token call (.taken value)
  | .finished token slot value => slot < num ∧ ∃ call, phase slot = .busy token call (.taken value)

/-- The counter and the account agree, and no token has been used twice. -/
structure AccountFits (counter : ℕ) (account : Account) : Prop where
  /-- The counter has been incremented once for each send. -/
  counter : counter = wrap (account.sends*resultCounterIncrement)
  /-- Tokens of later sends have not been used. -/
  fresh : ∀ token, account.sends < token/2^11 →
    account.issued token = [] ∧ account.returned token = [] ∧ token ∉ account.tokens
  /-- A token stands for one call. -/
  issued : ∀ token, (account.issued token).length ≤ 1
  /-- A call returns once. -/
  returned : ∀ token, (account.returned token).length ≤ 1

/-- The calling side of a box. -/
structure CallerBox (num : ℕ) (messages : ℕ → Message) (counter : ℕ) (free out : List ℕ)
    (phase : ℕ → Phase) (callers : ℕ → CallerPc) (account : Account) : Prop where
  /-- Every slot is as its phase says. -/
  slots : ∀ slot < num,
    SlotFits (messages slot) (slot ∈ free) (slot ∈ out) account slot (phase slot)
  /-- Every thread is where the phase of its slot allows it to be. -/
  threads : ∀ t, ThreadFits num out account phase (callers t)
  /-- No two threads work on one slot. -/
  owners : ∀ t t' slot, workSlot (callers t) = some slot → workSlot (callers t') = some slot →
    t = t'
  /-- A token that can be waited for is that of a call nobody is waiting for. -/
  tokens : ∀ token ∈ account.tokens, token%2^11 < num ∧
    ((messages (token%2^11)).waitCookie = token →
      (∃ call stage, phase (token%2^11) = .busy token call stage ∧ stage.Pending) ∧
      ∀ t, workSlot (callers t) ≠ some (token%2^11))
  /-- The counter and the account. -/
  ledger : AccountFits counter account

/-- Only the slot's own data enters what is known of it. -/
theorem SlotFits.congr {msg : Message} {free free' queued queued' : Prop}
    {account account' : Account} {slot : ℕ} {phase : Phase}
    (h : SlotFits msg free queued account slot phase) (hfree : free' ↔ free)
    (hqueued : queued' ↔ queued) (hoccupant : account'.occupant slot = account.occupant slot)
    (htoken : ∀ token, token%2^11 = slot → account'.issued token = account.issued token ∧
      account'.returned token = account.returned token) :
    SlotFits msg free' queued' account' slot phase := by
  rw [propext hfree, propext hqueued]
  cases phase with
  | free => exact h
  | claimed => exact h
  | busy token call stage =>
    obtain ⟨hf, hocc, hmod, hissued, hreturned, hstage⟩ := h
    obtain ⟨hi, hr⟩ := htoken token hmod
    exact ⟨hf, hoccupant ▸ hocc, hmod, hi ▸ hissued, hr ▸ hreturned, hstage⟩

/-- Only the thread's own slot enters what is known of it. -/
theorem ThreadFits.congr {num : ℕ} {out out' : List ℕ} {account account' : Account}
    {phase phase' : ℕ → Phase} {pc : CallerPc} (h : ThreadFits num out account phase pc)
    (hphase : ∀ slot, workSlot pc = some slot → phase' slot = phase slot)
    (hout : ∀ slot, workSlot pc = some slot → (slot ∈ out' ↔ slot ∈ out))
    (htokens : ∀ slot token, workSlot pc = some slot → token%2^11 = slot →
      token ∈ account'.tokens → token ∈ account.tokens)
    (hmod : ∀ call sync slot counter, pc = .counted call sync slot counter →
      uvisorResultBuild counter slot%2^11 = slot) :
    ThreadFits num out' account' phase' pc := by
  cases pc with
  | idle => trivial
  | counted call sync slot counter =>
    simp only [ThreadFits, hphase slot rfl] at h ⊢
    exact ⟨h.1, h.2.1, fun hm => h.2.2 (htokens slot _ rfl (hmod call sync slot counter rfl) hm)⟩
  | filled sync slot =>
    simp only [ThreadFits, hphase slot rfl, hout slot rfl] at h ⊢
    exact h
  | _ =>
    simp only [ThreadFits, hphase _ rfl] at h ⊢
    exact h

section Moves

variable {num counter : ℕ} {messages : ℕ → Message} {free out : List ℕ} {phase : ℕ → Phase}
  {callers : ℕ → CallerPc} {account : Account}

/-- A counted thread has a token of its slot. -/
theorem CallerBox.counted_mod (h : CallerBox num messages counter free out phase callers account)
    {t : ℕ} {call : Call} {sync : Bool} {slot n : ℕ} (ht : callers t = .counted call sync slot n) :
    uvisorResultBuild n slot%2^11 = slot := by
  have hfits := h.threads t
  rw [ht] at hfits
  have hslot := h.slots slot hfits.1
  rw [hfits.2.1] at hslot
  exact hslot.2.2.1

/-- What a step of a thread may change: the slot it works on, its own position,
and the account of tokens of that slot. -/
structure Touches (slot t : ℕ) (free free' out out' : List ℕ) (callers : ℕ → CallerPc)
    (pc' : CallerPc) (account account' : Account) : Prop where
  /-- The free list holds the same other slots. -/
  free : ∀ s, s ≠ slot → (s ∈ free' ↔ s ∈ free)
  /-- The queue holds the same other slots. -/
  out : ∀ s, s ≠ slot → (s ∈ out' ↔ s ∈ out)
  /-- Other slots are used for the same calls. -/
  occupant : ∀ s, s ≠ slot → account'.occupant s = account.occupant s
  /-- Nothing has happened to tokens of other slots. -/
  tokens : ∀ token, token%2^11 ≠ slot → account'.issued token = account.issued token ∧
    account'.returned token = account.returned token ∧
    (token ∈ account'.tokens → token ∈ account.tokens)
  /-- The thread works on this slot or on none. -/
  work : ∀ s, workSlot pc' = some s → s = slot
  /-- No other thread works on this slot. -/
  alone : ∀ t', t' ≠ t → workSlot (callers t') ≠ some slot

/-- A step of a thread that leaves its own slot in order leaves the box in
order. -/
theorem CallerBox.move (h : CallerBox num messages counter free out phase callers account)
    {slot t counter' : ℕ} {free' out' : List ℕ} {account' : Account} {pc' : CallerPc}
    {msg' : Message} {phase' : Phase} (hslot : slot < num)
    (htouches : Touches slot t free free' out out' callers pc' account account')
    (hfits : SlotFits msg' (slot ∈ free') (slot ∈ out') account' slot phase')
    (hthread : ThreadFits num out' account' (Function.update phase slot phase') pc')
    (htokens : ∀ token ∈ account'.tokens, token%2^11 = slot → msg'.waitCookie = token →
      (∃ call stage, phase' = .busy token call stage ∧ stage.Pending) ∧ workSlot pc' = none)
    (hledger : AccountFits counter' account') :
    CallerBox num (Function.update messages slot msg') counter' free' out'
      (Function.update phase slot phase') (Function.update callers t pc') account' := by
  refine ⟨fun s hs => ?_, fun t' => ?_, fun t₁ t₂ s h₁ h₂ => ?_, fun token htoken => ?_, hledger⟩
  · by_cases hss : s = slot
    · subst hss
      simpa using hfits
    · rw [Function.update_of_ne hss, Function.update_of_ne hss]
      refine (h.slots s hs).congr (htouches.free s hss) (htouches.out s hss)
        (htouches.occupant s hss) fun token hmod => ?_
      obtain ⟨hissued, hreturned, -⟩ := htouches.tokens token (hmod ▸ hss)
      exact ⟨hissued, hreturned⟩
  · by_cases htt : t' = t
    · subst htt
      simpa using hthread
    · rw [Function.update_of_ne htt]
      have hne : ∀ s, workSlot (callers t') = some s → s ≠ slot := by
        rintro s hs rfl
        exact htouches.alone t' htt hs
      refine (h.threads t').congr (fun s hs => Function.update_of_ne (hne s hs) _ _)
        (fun s hs => htouches.out s (hne s hs)) (fun s token hs hmod hm => ?_)
        (fun call sync s n hpc => h.counted_mod hpc)
      exact (htouches.tokens token (hmod ▸ hne s hs)).2.2 hm
  · by_cases h₁t : t₁ = t <;> by_cases h₂t : t₂ = t
    · rw [h₁t, h₂t]
    · subst h₁t
      rw [Function.update_self] at h₁
      rw [Function.update_of_ne h₂t, htouches.work s h₁] at h₂
      exact absurd h₂ (htouches.alone t₂ h₂t)
    · subst h₂t
      rw [Function.update_self] at h₂
      rw [Function.update_of_ne h₁t, htouches.work s h₂] at h₁
      exact absurd h₁ (htouches.alone t₁ h₁t)
    · rw [Function.update_of_ne h₁t] at h₁
      rw [Function.update_of_ne h₂t] at h₂
      exact h.owners t₁ t₂ s h₁ h₂
  · by_cases hmod : token%2^11 = slot
    · refine ⟨hmod ▸ hslot, fun hwait => ?_⟩
      rw [hmod, Function.update_self] at hwait ⊢
      obtain ⟨hphase, hwork⟩ := htokens token htoken hmod hwait
      refine ⟨hphase, fun t' => ?_⟩
      by_cases htt : t' = t
      · subst htt
        rw [Function.update_self, hwork]
        simp
      · rw [Function.update_of_ne htt]
        exact htouches.alone t' htt
    · obtain ⟨hlt, hwait⟩ := h.tokens token ((htouches.tokens token hmod).2.2 htoken)
      refine ⟨hlt, fun hcookie => ?_⟩
      rw [Function.update_of_ne hmod] at hcookie ⊢
      obtain ⟨hphase, hwork⟩ := hwait hcookie
      refine ⟨hphase, fun t' => ?_⟩
      by_cases htt : t' = t
      · subst htt
        rw [Function.update_self]
        exact fun hw => hmod (htouches.work _ hw)
      · rw [Function.update_of_ne htt]
        exact hwork t'

/-- A thread that works on a slot is the only one. -/
theorem CallerBox.alone (h : CallerBox num messages counter free out phase callers account)
    {t slot : ℕ} (ht : workSlot (callers t) = some slot) (t' : ℕ) (htt : t' ≠ t) :
    workSlot (callers t') ≠ some slot :=
  fun ht' => htt (h.owners t' t slot ht' ht)

/-- A slot that a thread works on cannot be waited for. -/
theorem CallerBox.not_waitable
    (h : CallerBox num messages counter free out phase callers account) {t slot : ℕ}
    (ht : workSlot (callers t) = some slot) (token : ℕ) (htoken : token ∈ account.tokens)
    (hmod : token%2^11 = slot) : (messages slot).waitCookie ≠ token := by
  subst hmod
  exact fun hwait => ((h.tokens token htoken).2 hwait).2 t ht

/-- Nobody works on a free slot. -/
theorem CallerBox.phase_ne_free
    (h : CallerBox num messages counter free out phase callers account) {t slot : ℕ}
    (ht : workSlot (callers t) = some slot) : phase slot ≠ .free := by
  have hfits := h.threads t
  cases hpc : callers t with
  | idle => simp [hpc, workSlot] at ht
  | _ =>
    rw [hpc] at ht hfits
    cases ht
    simp only [ThreadFits] at hfits
    grind

/-- A free slot is in the free phase. -/
theorem CallerBox.phase_of_free
    (h : CallerBox num messages counter free out phase callers account) {slot : ℕ}
    (hs : slot < num) (hmem : slot ∈ free) : phase slot = .free := by
  have hfits := h.slots slot hs
  cases hp : phase slot with
  | free => rfl
  | claimed =>
    rw [hp] at hfits
    exact absurd hmem hfits.1
  | busy token call stage =>
    rw [hp] at hfits
    exact absurd hmem hfits.1

/-- The monitor moves a pending call on, and leaves the token alone. -/
theorem CallerBox.passed (h : CallerBox num messages counter free out phase callers account)
    {slot token : ℕ} {call : Call} {stage stage' : Stage} {out' : List ℕ} {msg' : Message}
    (hphase : phase slot = .busy token call stage) (hp : stage.Pending) (hp' : stage'.Pending)
    (hout : ∀ s, s ≠ slot → (s ∈ out' ↔ s ∈ out)) (hready : stage = .ready → slot ∈ out)
    (hslot : slot < num) (hwait : msg'.waitCookie = (messages slot).waitCookie)
    (hfits : StageFits msg' (slot ∈ out') token call stage') :
    CallerBox num (Function.update messages slot msg') counter free out'
      (Function.update phase slot (.busy token call stage')) callers account := by
  refine ⟨fun s hs => ?_, fun t => ?_, h.owners, fun k hk => ?_, h.ledger⟩
  · by_cases hss : s = slot
    · subst hss
      have hold := h.slots s hs
      rw [hphase] at hold
      obtain ⟨hfree, hoccupant, hmod, hissued, hreturned, -⟩ := hold
      simpa using ⟨hfree, hoccupant, hmod, hissued, hreturned, hfits⟩
    · rw [Function.update_of_ne hss, Function.update_of_ne hss]
      exact (h.slots s hs).congr Iff.rfl (hout s hss) rfl fun _ _ => ⟨rfl, rfl⟩
  · have hthread := h.threads t
    by_cases hw : workSlot (callers t) = some slot
    · cases hpc : callers t with
      | idle => simp [hpc, workSlot] at hw
      | queued sync s =>
        rw [hpc] at hw hthread
        cases hw
        obtain ⟨hlt, -⟩ := hthread
        exact ⟨hlt, token, call, stage', Function.update_self _ _ _, hp'⟩
      | waiting k s =>
        rw [hpc] at hw hthread
        cases hw
        obtain ⟨hlt, _, _, hk, -⟩ := hthread
        rw [hphase] at hk
        cases hk
        exact ⟨hlt, call, stage', Function.update_self _ _ _, hp'⟩
      | filled sync s =>
        rw [hpc] at hw hthread
        cases hw
        obtain ⟨-, hnot, _, _, hk⟩ := hthread
        rw [hphase] at hk
        cases hk
        exact absurd (hready rfl) hnot
      | _ =>
        rw [hpc] at hw hthread
        cases hw
        simp only [ThreadFits, hphase] at hthread
        grind [Stage.Pending]
    · refine hthread.congr (fun s hs => Function.update_of_ne ?_ _ _) (fun s hs => hout s ?_)
        (fun _ _ _ _ hm => hm) fun call' sync s n hpc => h.counted_mod hpc
      · rintro rfl
        exact hw hs
      · rintro rfl
        exact hw hs
  · obtain ⟨hlt, hold⟩ := h.tokens k hk
    refine ⟨hlt, fun hcookie => ?_⟩
    by_cases hks : k%2^11 = slot
    · rw [hks, Function.update_self, hwait, ← hks] at hcookie
      obtain ⟨⟨call', stage'', hbusy, -⟩, hwork⟩ := hold hcookie
      rw [hks, hphase] at hbusy
      cases hbusy
      rw [hks, Function.update_self, ← hks]
      exact ⟨⟨call, stage', rfl, hp'⟩, hwork⟩
    · rw [Function.update_of_ne hks] at hcookie ⊢
      exact hold hcookie

/-- The monitor takes a message out of the queue, or puts it back. -/
theorem CallerBox.requeued (h : CallerBox num messages counter free out phase callers account)
    {slot token : ℕ} {call : Call} {out' : List ℕ} (hphase : phase slot = .busy token call .ready)
    (hslot : slot < num) (hmem : slot ∈ out) (hout : ∀ s, s ≠ slot → (s ∈ out' ↔ s ∈ out)) :
    CallerBox num messages counter free out' phase callers account := by
  have hfits := h.slots slot hslot
  rw [hphase] at hfits
  have hpending : Stage.ready.Pending := trivial
  have hstage : StageFits (messages slot) (slot ∈ out') token call .ready := hfits.2.2.2.2.2
  have hbox := h.passed hphase hpending hpending hout (fun _ => hmem) hslot rfl hstage
  rwa [Function.update_eq_self, ← hphase, Function.update_eq_self] at hbox

/-- A step that does not change the account. -/
theorem Touches.same {slot t : ℕ} {free' out' : List ℕ} {pc' : CallerPc}
    (hfree : ∀ s, s ≠ slot → (s ∈ free' ↔ s ∈ free)) (hout : ∀ s, s ≠ slot → (s ∈ out' ↔ s ∈ out))
    (hwork : ∀ s, workSlot pc' = some s → s = slot)
    (halone : ∀ t', t' ≠ t → workSlot (callers t') ≠ some slot) :
    Touches slot t free free' out out' callers pc' account account :=
  ⟨hfree, hout, fun _ _ => rfl, fun _ _ => ⟨rfl, rfl, id⟩, hwork, halone⟩

/-! ## Progress of the calls -/

/-- What a step of a calling thread can do to the calls of its box: none is
delivered or completed by it, and what it returns has come back before. -/
structure Progress (num : ℕ) (phase phase' : ℕ → Phase) (account account' : Account) : Prop where
  /-- Delivered calls stay where they are. -/
  sent : ∀ slot token call callee calleeSlot,
    phase' slot = .busy token call (.sent callee calleeSlot) ↔
      phase slot = .busy token call (.sent callee calleeSlot)
  /-- A call that has not been delivered has a new token or was there before. -/
  unsent : ∀ slot token call stage', phase' slot = .busy token call stage' → stage'.Unsent →
    account.sends < token/2^11 ∨ ∃ stage, phase slot = .busy token call stage ∧ stage.Unsent
  /-- A value that has come back was there before. -/
  value : ∀ slot token call stage' v, phase' slot = .busy token call stage' →
    stage'.value = some v → ∃ stage, phase slot = .busy token call stage ∧ stage.value = some v
  /-- Tokens keep their calls. -/
  issued : ∀ token, account.issued token ≠ [] → account'.issued token = account.issued token
  /-- A value is returned that has come back. -/
  returned : ∀ token v, v ∈ account'.returned token → v ∈ account.returned token ∨
    ∃ slot < num, ∃ call, phase slot = .busy token call (.taken v)

theorem Progress.refl (num : ℕ) (phase : ℕ → Phase) (account : Account) :
    Progress num phase phase account account :=
  ⟨fun _ _ _ _ _ => Iff.rfl, fun _ _ _ stage hp hu => .inr ⟨stage, hp, hu⟩,
    fun _ _ _ stage _ hp hv => ⟨stage, hp, hv⟩, fun _ _ => rfl, fun _ _ hv => .inl hv⟩

/-- Progress of one slot. -/
theorem Progress.update {slot : ℕ} {phase' : Phase} {account' : Account}
    (hold : ∀ token call callee calleeSlot,
      phase slot ≠ .busy token call (.sent callee calleeSlot))
    (hnew : ∀ token call callee calleeSlot, phase' ≠ .busy token call (.sent callee calleeSlot))
    (hunsent : ∀ token call stage', phase' = .busy token call stage' → stage'.Unsent →
      account.sends < token/2^11 ∨ ∃ stage, phase slot = .busy token call stage ∧ stage.Unsent)
    (hvalue : ∀ token call stage' v, phase' = .busy token call stage' → stage'.value = some v →
      ∃ stage, phase slot = .busy token call stage ∧ stage.value = some v)
    (hissued : ∀ token, account.issued token ≠ [] → account'.issued token = account.issued token)
    (hreturned : ∀ token v, v ∈ account'.returned token → v ∈ account.returned token ∨
      ∃ slot < num, ∃ call, phase slot = .busy token call (.taken v)) :
    Progress num phase (Function.update phase slot phase') account account' := by
  refine ⟨fun s token call callee cs => ?_, fun s token call stage' hp hu => ?_,
    fun s token call stage' v hp hv => ?_, hissued, hreturned⟩
  · by_cases hs : s = slot
    · subst hs
      rw [Function.update_self]
      exact iff_of_false (hnew token call callee cs) (hold token call callee cs)
    · rw [Function.update_of_ne hs]
  · by_cases hs : s = slot
    · subst hs
      rw [Function.update_self] at hp
      exact hunsent token call stage' hp hu
    · rw [Function.update_of_ne hs] at hp
      exact .inr ⟨stage', hp, hu⟩
  · by_cases hs : s = slot
    · subst hs
      rw [Function.update_self] at hp
      exact hvalue token call stage' v hp hv
    · rw [Function.update_of_ne hs] at hp
      exact ⟨stage', hp, hv⟩

/-- Progress of one call, without a change of the account. -/
theorem Progress.advance {slot token : ℕ} {call : Call} {stage stage' : Stage}
    (hphase : phase slot = .busy token call stage)
    (hold : ∀ callee calleeSlot, stage ≠ .sent callee calleeSlot)
    (hnew : ∀ callee calleeSlot, stage' ≠ .sent callee calleeSlot)
    (hunsent : stage'.Unsent → stage.Unsent)
    (hvalue : ∀ v, stage'.value = some v → stage.value = some v) :
    Progress num phase (Function.update phase slot (.busy token call stage')) account account := by
  refine .update (fun _ _ callee cs he => ?_) (fun _ _ callee cs he => ?_)
    (fun _ _ _ he hu => ?_) (fun _ _ _ v he hv => ?_) (fun _ _ => rfl) fun _ _ hv => .inl hv
  · rw [hphase] at he
    cases he
    exact hold callee cs rfl
  · cases he
    exact hnew callee cs rfl
  · cases he
    exact .inr ⟨stage, hphase, hunsent hu⟩
  · cases he
    exact ⟨stage, hphase, hvalue v hv⟩

end Moves

/-! ## Steps -/

section Steps

variable {rpc rpc' : BoxRpc} {lists : BoxLists} {phase : ℕ → Phase} {callers : ℕ → CallerPc}
  {account : Account} {t slot : ℕ}

/-- The calling side of a box, read from its memory. -/
def CallerFits (rpc : BoxRpc) (free out : List ℕ) (phase : ℕ → Phase) (callers : ℕ → CallerPc)
    (account : Account) : Prop :=
  CallerBox rpc.outgoing.queues.pool.num rpc.outgoing.messages rpc.resultCounter free out phase
    callers account

/-- What a step of a calling thread leaves behind. -/
def Moved (rpc : BoxRpc) (lists : BoxLists) (phase : ℕ → Phase) (account : Account)
    (rpc' : BoxRpc) (callers' : ℕ → CallerPc) (account' : Account) : Prop :=
  ∃ free out phase', DescribesBox rpc' {lists with outFree := free, out := out} ∧
    rpc'.incoming = rpc.incoming ∧ rpc'.fnGroups = rpc.fnGroups ∧
    header rpc'.outgoing.queues = header rpc.outgoing.queues ∧
    CallerFits rpc' free out phase' callers' account' ∧
    Progress rpc.outgoing.queues.pool.num phase phase' account account'

/-- A step that changes nothing. -/
theorem moved_self (hd : DescribesBox rpc lists)
    (h : CallerFits rpc lists.outFree lists.out phase callers account)
    (hpc : callers t = .idle) :
    Moved rpc lists phase account rpc (Function.update callers t .idle) account := by
  refine ⟨lists.outFree, lists.out, phase, hd, rfl, rfl, rfl, ?_, Progress.refl _ _ _⟩
  rw [← hpc, Function.update_eq_self]
  exact h

/-- A step that moves one slot on. -/
theorem CallerBox.moved
    (h : CallerFits rpc lists.outFree lists.out phase callers account)
    (hlt : slot < rpc.outgoing.queues.pool.num) (msg' : Message) (phase' : Phase)
    {free' out' : List ℕ} {pc' : CallerPc} {account' : Account}
    (hd : DescribesBox rpc' {lists with outFree := free', out := out'})
    (hsame : rpc'.incoming = rpc.incoming ∧ rpc'.fnGroups = rpc.fnGroups ∧
      header rpc'.outgoing.queues = header rpc.outgoing.queues)
    (hmessages : rpc'.outgoing.messages = Function.update rpc.outgoing.messages slot msg')
    (htouches : Touches slot t lists.outFree free' lists.out out' callers pc' account account')
    (hfits : SlotFits msg' (slot ∈ free') (slot ∈ out') account' slot phase')
    (hthread : ThreadFits rpc.outgoing.queues.pool.num out' account'
      (Function.update phase slot phase') pc')
    (htokens : ∀ token ∈ account'.tokens, token%2^11 = slot → msg'.waitCookie = token →
      (∃ call stage, phase' = .busy token call stage ∧ stage.Pending) ∧ workSlot pc' = none)
    (hledger : AccountFits rpc'.resultCounter account')
    (hprogress : Progress rpc.outgoing.queues.pool.num phase (Function.update phase slot phase')
      account account') :
    Moved rpc lists phase account rpc' (Function.update callers t pc') account' := by
  refine ⟨free', out', Function.update phase slot phase', hd, hsame.1, hsame.2.1, hsame.2.2, ?_,
    hprogress⟩
  unfold CallerFits
  rw [num_of_header () hsame.2.2, hmessages]
  exact CallerBox.move h hlt htouches hfits hthread htokens hledger

/-- New outgoing structures of a box are described by new lists. -/
theorem describesBox_withOutgoing (hd : DescribesBox rpc lists) {q : PoolQueues Unit}
    {free out : List ℕ} (hr : Represents q free (fun _ => out)) (hl : q.pool.spinlock = false) :
    DescribesBox (withOutgoing rpc q) {lists with outFree := free, out := out} :=
  ⟨hr, hd.incoming, hd.fnGroups, hl, hd.incoming_lock⟩

/-- A slot of a described pool fits a byte. -/
theorem slot_lt (hd : DescribesBox rpc lists) (hs : slot < rpc.outgoing.queues.pool.num) :
    slot < 2^8 := by
  have hnum := hd.outgoing.num_lt
  simp only [poolMaxValid] at hnum
  omega

/-- Claiming takes the first free slot, or changes nothing. -/
theorem moved_claim (hd : DescribesBox rpc lists)
    (h : CallerFits rpc lists.outFree lists.out phase callers account) {call : Call} {sync : Bool}
    {pc' : CallerPc} (hpc : callers t = .idle)
    (hs : callerStep rpc .idle (.claim call sync) = some (rpc', pc')) :
    Moved rpc lists phase account rpc' (Function.update callers t pc')
      (account.note rpc .idle pc') := by
  have hnum := hd.outgoing.num_lt
  have hr := hd.outgoing
  simp only [callerStep] at hs
  cases hfree : lists.outFree with
  | nil =>
    have hend : rpc.outgoing.queues.pool.num ≤ slotInvalid := by
      simp only [poolMaxValid, slotInvalid] at *
      omega
    rw [hfree] at hr
    rw [claimOutgoing_nil hr hd.outgoing_lock, Option.map_some, if_pos hend] at hs
    cases hs
    exact moved_self hd h hpc
  | cons slot free =>
    rw [hfree] at hr
    have hlt : slot < rpc.outgoing.queues.pool.num := hr.free_lt slot (by simp)
    obtain ⟨queues, hclaim, hr', hlock, hheader⟩ := claimOutgoing_cons hr hd.outgoing_lock
    have hnum' : queues.pool.num = rpc.outgoing.queues.pool.num := num_of_header () hheader
    have hend : ¬(withOutgoing rpc queues).outgoing.queues.pool.num ≤ slot := by
      change ¬queues.pool.num ≤ slot
      omega
    rw [hclaim, Option.map_some, if_neg hend] at hs
    cases hs
    have hphase := CallerBox.phase_of_free h hlt (hfree ▸ List.mem_cons_self)
    have hfits := CallerBox.slots h slot hlt
    rw [hphase] at hfits
    have halone : ∀ t', workSlot (callers t') ≠ some slot := fun t' ht' =>
      CallerBox.phase_ne_free h ht' hphase
    refine CallerBox.moved h hlt (rpc.outgoing.messages slot) .claimed
      (describesBox_withOutgoing hd hr' hlock) ⟨rfl, rfl, hheader⟩
      (Function.update_eq_self _ _).symm
      (.same (fun s hs => by simp [hfree, hs]) (fun _ _ => Iff.rfl) (by simp [workSlot])
        fun t' _ => halone t') ?_ ?_ ?_ (CallerBox.ledger h) ?_
    · exact ⟨(List.nodup_cons.mp hr.free_nodup).1, fun hm => hr.free_disjoint () slot hm (by simp),
        hfits.2⟩
    · exact ⟨hlt, Function.update_self _ _ _⟩
    · intro token htoken hmod hwait
      subst hmod
      obtain ⟨⟨call, stage, hbusy, -⟩, -⟩ := (CallerBox.tokens h token htoken).2 hwait
      rw [hphase] at hbusy
      cases hbusy
    · exact .update (by simp [hphase]) (by simp) (by simp) (by simp) (fun _ _ => rfl)
        fun _ _ hv => .inl hv

/-- Counting one more send keeps the ledger. -/
theorem AccountFits.counted {counter : ℕ} (h : AccountFits counter account)
    (hsends : account.sends+1 < 2^21) (hs : slot < 2^8) (rpc : BoxRpc) (call : Call) (sync : Bool)
    (pc : CallerPc) :
    let next := wrap (counter+resultCounterIncrement)
    uvisorResultBuild next slot = (account.sends+1)*2^11+slot ∧
      AccountFits next (account.note rpc pc (.counted call sync slot next)) := by
  have hnext : wrap (counter+resultCounterIncrement) =
      wrap ((account.sends+1)*resultCounterIncrement) := by
    rw [h.counter]
    simp only [wrap, resultCounterIncrement, resultSlotBits, Nat.shiftLeft_eq]
    omega
  dsimp only
  rw [hnext]
  have hbuild := uvisorResultBuild_counter hsends (by omega : slot < 2^10)
  refine ⟨hbuild, rfl, fun token htoken => ?_, fun token => ?_, h.returned⟩
  · simp only [Account.note, hbuild] at htoken ⊢
    obtain ⟨hissued, hreturned, hmem⟩ := h.fresh token (by omega)
    refine ⟨?_, hreturned, hmem⟩
    rw [Function.update_of_ne (by omega)]
    exact hissued
  · simp only [Account.note, hbuild]
    by_cases ht : token = (account.sends+1)*2^11+slot
    · subst ht
      rw [Function.update_self, (h.fresh _ (by omega)).1]
      simp
    · rw [Function.update_of_ne ht]
      exact h.issued token

/-- Counting gives the claimed slot a token that has not been used. -/
theorem moved_count (hd : DescribesBox rpc lists)
    (h : CallerFits rpc lists.outFree lists.out phase callers account) {call : Call} {sync : Bool}
    {pc' : CallerPc} (hpc : callers t = .claimed call sync slot)
    (hs : callerStep rpc (.claimed call sync slot) .count = some (rpc', pc'))
    (hsends : (account.note rpc (.claimed call sync slot) pc').sends < 2^21) :
    Moved rpc lists phase account rpc' (Function.update callers t pc')
      (account.note rpc (.claimed call sync slot) pc') := by
  cases hs
  have hthread := CallerBox.threads h t
  rw [hpc] at hthread
  obtain ⟨hlt, hphase⟩ := hthread
  have hwork : workSlot (callers t) = some slot := by rw [hpc]; rfl
  have hfits := CallerBox.slots h slot hlt
  rw [hphase] at hfits
  obtain ⟨hfree, hout, hsem⟩ := hfits
  obtain ⟨hbuild, hledger⟩ := (CallerBox.ledger h).counted hsends (slot_lt hd hlt) rpc call sync
    (.claimed call sync slot)
  generalize hn : wrap (rpc.resultCounter+resultCounterIncrement) = n at hbuild hledger
  have hnew : account.sends < uvisorResultBuild n slot/2^11 := by omega
  have hmod : uvisorResultBuild n slot%2^11 = slot := by
    have hslot := slot_lt hd hlt
    omega
  obtain ⟨hissued, hreturned, htokens⟩ := (CallerBox.ledger h).fresh _ hnew
  simp only [nextCounter, hn] at *
  refine CallerBox.moved h hlt (rpc.outgoing.messages slot)
    (.busy (uvisorResultBuild n slot) call .numbered)
    ⟨hd.outgoing, hd.incoming, hd.fnGroups, hd.outgoing_lock, hd.incoming_lock⟩ ⟨rfl, rfl, rfl⟩
    (Function.update_eq_self _ _).symm ?_ ?_ ?_ ?_ hledger ?_
  · refine ⟨fun _ _ => Iff.rfl, fun _ _ => Iff.rfl, fun s hs => ?_, fun token htoken => ?_,
      by simp [workSlot], CallerBox.alone h hwork⟩
    · exact Function.update_of_ne hs _ _
    · refine ⟨Function.update_of_ne ?_ _ _, rfl, id⟩
      rintro rfl
      exact htoken hmod
  · refine ⟨hfree, Function.update_self _ _ _, hmod, ?_, hreturned, hout, hsem⟩
    simp [Account.note, hissued]
  · exact ⟨hlt, Function.update_self _ _ _, htokens⟩
  · exact fun token htoken hslot hwait =>
      absurd hwait (CallerBox.not_waitable h hwork token htoken hslot)
  · refine .update (by simp [hphase]) (by simp) ?_ ?_ ?_ fun _ _ hv => .inl hv
    · intro token call' stage' hbusy _
      cases hbusy
      exact .inl hnew
    · intro token call' stage' v hbusy hv
      cases hbusy
      cases hv
    · intro token htoken
      refine Function.update_of_ne ?_ _ _
      rintro rfl
      exact htoken hissued

/-- Filling the message in. -/
theorem moved_fill (hd : DescribesBox rpc lists)
    (h : CallerFits rpc lists.outFree lists.out phase callers account) {call : Call} {sync : Bool}
    {n : ℕ} {pc' : CallerPc} (hpc : callers t = .counted call sync slot n)
    (hs : callerStep rpc (.counted call sync slot n) .fill = some (rpc', pc')) :
    Moved rpc lists phase account rpc' (Function.update callers t pc')
      (account.note rpc (.counted call sync slot n) pc') := by
  cases hs
  have hthread := CallerBox.threads h t
  rw [hpc] at hthread
  obtain ⟨hlt, hphase, htokens⟩ := hthread
  have hwork : workSlot (callers t) = some slot := by rw [hpc]; rfl
  have hfits := CallerBox.slots h slot hlt
  rw [hphase] at hfits
  obtain ⟨hfree, hoccupant, hmod, hissued, hreturned, hout, hsem⟩ := hfits
  refine CallerBox.moved h hlt (populated (rpc.outgoing.messages slot) call n slot)
    (.busy (uvisorResultBuild n slot) call .ready)
    ⟨hd.outgoing, hd.incoming, hd.fnGroups, hd.outgoing_lock, hd.incoming_lock⟩ ⟨rfl, rfl, rfl⟩ rfl
    (.same (fun _ _ => Iff.rfl) (fun _ _ => Iff.rfl) (by simp [workSlot])
      (CallerBox.alone h hwork)) ?_ ?_ ?_ (CallerBox.ledger h) ?_
  · exact ⟨hfree, hoccupant, hmod, hissued, hreturned, hsem, rfl, rfl⟩
  · exact ⟨hlt, hout, _, _, Function.update_self _ _ _⟩
  · intro token htoken _ hwait
    subst hwait
    exact absurd htoken htokens
  · exact .advance hphase (by simp) (by simp) (fun _ => trivial) fun _ hv => by cases hv

/-- Queuing the message. -/
theorem moved_enqueue (hd : DescribesBox rpc lists)
    (h : CallerFits rpc lists.outFree lists.out phase callers account) {sync : Bool}
    {pc' : CallerPc} (hpc : callers t = .filled sync slot)
    (hs : callerStep rpc (.filled sync slot) .enqueue = some (rpc', pc')) :
    Moved rpc lists phase account rpc' (Function.update callers t pc')
      (account.note rpc (.filled sync slot) pc') := by
  have hthread := CallerBox.threads h t
  rw [hpc] at hthread
  obtain ⟨hlt, hout, token, call, hphase⟩ := hthread
  have hwork : workSlot (callers t) = some slot := by rw [hpc]; rfl
  have hfits := CallerBox.slots h slot hlt
  rw [hphase] at hfits
  obtain ⟨hfree, hoccupant, hmod, hissued, hreturned, hsem, hcookie, hcall⟩ := hfits
  obtain ⟨queues, henq, hr, hlock, hheader⟩ := enqueueOutgoing_held hd.outgoing hd.outgoing_lock
    ⟨hlt, hfree, fun _ => hout⟩
  simp only [callerStep, henq, Option.map_some] at hs
  cases hs
  refine CallerBox.moved h hlt (rpc.outgoing.messages slot) (.busy token call .ready)
    (describesBox_withOutgoing hd hr hlock) ⟨rfl, rfl, hheader⟩ (Function.update_eq_self _ _).symm
    (.same (fun _ _ => Iff.rfl) (fun s hs => by simp [hs]) (by simp [workSlot])
      (CallerBox.alone h hwork)) ?_ ?_ ?_ (CallerBox.ledger h) ?_
  · exact ⟨hfree, hoccupant, hmod, hissued, hreturned, hsem, hcookie, hcall⟩
  · exact ⟨hlt, token, call, .ready, Function.update_self _ _ _, trivial⟩
  · exact fun k hk hslot hwait => absurd hwait (CallerBox.not_waitable h hwork k hk hslot)
  · rw [← hphase, Function.update_eq_self]
    exact Progress.refl _ _ _

/-- The token of a message that is waited for is in the message. -/
theorem StageFits.matchCookie {msg : Message} {queued : Prop} {token : ℕ} {call : Call}
    {stage : Stage} (h : StageFits msg queued token call stage) (hp : stage.Pending) :
    msg.matchCookie = token := by
  cases stage with
  | ready => exact h.2.1
  | sent callee calleeSlot => exact h.2.2.1
  | done value => exact h.2.2.1
  | numbered => cases hp
  | taken value => cases hp

/-- One more token that can be waited for keeps the ledger. -/
theorem AccountFits.keep {counter token : ℕ} (h : AccountFits counter account)
    (hissued : account.issued token ≠ []) :
    AccountFits counter {account with tokens := token :: account.tokens} := by
  refine ⟨h.counter, fun k hk => ?_, h.issued, h.returned⟩
  obtain ⟨hi, hr, ht⟩ := h.fresh k hk
  refine ⟨hi, hr, fun hm => ?_⟩
  rcases List.mem_cons.mp hm with rfl | hm
  · exact hissued hi
  · exact ht hm

/-- Reading the token: a synchronous call goes on to wait, and an asynchronous
one hands it out. -/
theorem moved_readToken (hd : DescribesBox rpc lists)
    (h : CallerFits rpc lists.outFree lists.out phase callers account) {sync : Bool}
    {pc' : CallerPc} (hpc : callers t = .queued sync slot)
    (hs : callerStep rpc (.queued sync slot) .readToken = some (rpc', pc')) :
    Moved rpc lists phase account rpc' (Function.update callers t pc')
      (account.note rpc (.queued sync slot) pc') := by
  have hthread := CallerBox.threads h t
  rw [hpc] at hthread
  obtain ⟨hlt, token, call, stage, hphase, hpending⟩ := hthread
  have hwork : workSlot (callers t) = some slot := by rw [hpc]; rfl
  have hfits := CallerBox.slots h slot hlt
  rw [hphase] at hfits
  have hmod := hfits.2.2.1
  have hissued := hfits.2.2.2.1
  have hcookie := hfits.2.2.2.2.2.matchCookie hpending
  have hslot := uvisorResultSlot_of_mod hmod (slot_lt hd hlt)
  have hprogress : Progress rpc.outgoing.queues.pool.num phase
      (Function.update phase slot (.busy token call stage)) account account := by
    rw [← hphase, Function.update_eq_self]
    exact Progress.refl _ _ _
  simp only [callerStep, hcookie, hslot] at hs
  cases hs
  cases sync with
  | true =>
    refine CallerBox.moved h hlt (rpc.outgoing.messages slot) (.busy token call stage) hd
      ⟨rfl, rfl, rfl⟩ (Function.update_eq_self _ _).symm
      (.same (fun _ _ => Iff.rfl) (fun _ _ => Iff.rfl) (by simp [workSlot])
        (CallerBox.alone h hwork)) hfits ?_ ?_ (CallerBox.ledger h) hprogress
    · exact ⟨hlt, call, stage, Function.update_self _ _ _, hpending⟩
    · exact fun k hk hk' hwait => absurd hwait (CallerBox.not_waitable h hwork k hk hk')
  | false =>
    have hnote : account.note rpc (.queued false slot) .idle =
        {account with tokens := token :: account.tokens} := by
      simp only [Account.note, hcookie]
    change Moved _ _ _ _ _ (Function.update callers t .idle) (account.note rpc _ .idle)
    rw [hnote]
    refine CallerBox.moved h hlt (rpc.outgoing.messages slot) (.busy token call stage) hd
      ⟨rfl, rfl, rfl⟩ (Function.update_eq_self _ _).symm ?_ hfits trivial ?_
      ((CallerBox.ledger h).keep (by simp [hissued])) ?_
    · refine ⟨fun _ _ => Iff.rfl, fun _ _ => Iff.rfl, fun _ _ => rfl, fun k hk => ⟨rfl, rfl, ?_⟩,
        by simp [workSlot], CallerBox.alone h hwork⟩
      intro hm
      rcases List.mem_cons.mp hm with rfl | hm
      · exact absurd hmod hk
      · exact hm
    · intro k hk hk' hwait
      rcases List.mem_cons.mp hk with rfl | hk
      · exact ⟨⟨call, stage, rfl, hpending⟩, rfl⟩
      · exact absurd hwait (CallerBox.not_waitable h hwork k hk hk')
    · exact ⟨hprogress.sent, hprogress.unsent, hprogress.value, fun _ _ => rfl,
        fun _ _ hv => .inl hv⟩

/-- A wait takes a valid token, or returns at once. -/
theorem moved_wait (hd : DescribesBox rpc lists)
    (h : CallerFits rpc lists.outFree lists.out phase callers account) {result : ℕ}
    {pc' : CallerPc} (hpc : callers t = .idle) (hresult : result ∈ account.tokens)
    (hs : callerStep rpc .idle (.wait result) = some (rpc', pc')) :
    Moved rpc lists phase account rpc' (Function.update callers t pc')
      (account.note rpc .idle pc') := by
  obtain ⟨hlt, hwaitable⟩ := CallerBox.tokens h result hresult
  have hslot := uvisorResultSlot_of_mod rfl (slot_lt hd hlt)
  simp only [callerStep, claimWait, hslot] at hs
  by_cases hcookie : (rpc.outgoing.messages (result%2^11)).waitCookie = result
  · rw [if_pos hcookie] at hs
    cases hs
    obtain ⟨⟨call, stage, hphase, hpending⟩, hwork⟩ := hwaitable hcookie
    have hfits := CallerBox.slots h (result%2^11) hlt
    rw [hphase] at hfits
    refine CallerBox.moved h hlt {rpc.outgoing.messages (result%2^11) with
        waitCookie := uvisorResultBuild resultInvalidCounter (result%2^11)}
      (.busy result call stage)
      ⟨hd.outgoing, hd.incoming, hd.fnGroups, hd.outgoing_lock, hd.incoming_lock⟩ ⟨rfl, rfl, rfl⟩
      rfl (.same (fun _ _ => Iff.rfl) (fun _ _ => Iff.rfl) (by simp [workSlot])
        fun t' _ => hwork t') ?_ ?_ ?_ (CallerBox.ledger h) ?_
    · obtain ⟨hfree, hoccupant, hmod, hissued, hreturned, hstage⟩ := hfits
      refine ⟨hfree, hoccupant, hmod, hissued, hreturned, ?_⟩
      cases stage <;> exact hstage
    · exact ⟨hlt, call, stage, Function.update_self _ _ _, hpending⟩
    · intro token htoken hmod hwait
      change uvisorResultBuild resultInvalidCounter (result%2^11) = token at hwait
      have hinvalid := invalid_mod (result%2^11)
      have hbyte := slot_lt hd hlt
      rw [hwait] at hinvalid
      omega
    · rw [← hphase, Function.update_eq_self]
      exact Progress.refl _ _ _
  · rw [if_neg hcookie] at hs
    cases hs
    exact moved_self hd h hpc

/-- A thread is woken up when the result has been copied. -/
theorem moved_pend (hd : DescribesBox rpc lists)
    (h : CallerFits rpc lists.outFree lists.out phase callers account) {token : ℕ}
    {pc' : CallerPc} (hpc : callers t = .waiting token slot)
    (hs : callerStep rpc (.waiting token slot) .pend = some (rpc', pc')) :
    Moved rpc lists phase account rpc' (Function.update callers t pc')
      (account.note rpc (.waiting token slot) pc') := by
  have hthread := CallerBox.threads h t
  rw [hpc] at hthread
  obtain ⟨hlt, call, stage, hphase, hpending⟩ := hthread
  have hwork : workSlot (callers t) = some slot := by rw [hpc]; rfl
  have hfits := CallerBox.slots h slot hlt
  rw [hphase] at hfits
  obtain ⟨hfree, hoccupant, hmod, hissued, hreturned, hstage⟩ := hfits
  simp only [callerStep, waitForRpcResult, Option.map_map] at hs
  obtain ⟨count, hcount, he⟩ := Option.map_eq_some_iff.mp hs
  cases he
  cases stage with
  | numbered => cases hpending
  | taken value => cases hpending
  | ready =>
    rw [hstage.1] at hcount
    cases hcount
  | sent callee calleeSlot =>
    rw [hstage.2.1] at hcount
    cases hcount
  | done value =>
    obtain ⟨hout, hsem, -, hresult⟩ := hstage
    rw [hsem] at hcount
    cases hcount
    refine CallerBox.moved h hlt {rpc.outgoing.messages slot with semaphore := 0}
      (.busy token call (.taken value))
      ⟨hd.outgoing, hd.incoming, hd.fnGroups, hd.outgoing_lock, hd.incoming_lock⟩ ⟨rfl, rfl, rfl⟩
      rfl (.same (fun _ _ => Iff.rfl) (fun _ _ => Iff.rfl) (by simp [workSlot])
        (CallerBox.alone h hwork)) ?_ ?_ ?_ (CallerBox.ledger h) ?_
    · exact ⟨hfree, hoccupant, hmod, hissued, hreturned, hout, rfl, hresult⟩
    · exact ⟨hlt, call, value, Function.update_self _ _ _⟩
    · exact fun k hk hk' hwait => absurd hwait (CallerBox.not_waitable h hwork k hk hk')
    · exact .advance hphase (by simp) (by simp) (fun hu => hu.elim) fun _ hv => hv

/-- A woken thread reads the value that has come back. -/
theorem moved_readResult (hd : DescribesBox rpc lists)
    (h : CallerFits rpc lists.outFree lists.out phase callers account) {token : ℕ}
    {pc' : CallerPc} (hpc : callers t = .woken token slot)
    (hs : callerStep rpc (.woken token slot) .readResult = some (rpc', pc')) :
    Moved rpc lists phase account rpc' (Function.update callers t pc')
      (account.note rpc (.woken token slot) pc') := by
  cases hs
  have hthread := CallerBox.threads h t
  rw [hpc] at hthread
  obtain ⟨hlt, call, value, hphase⟩ := hthread
  have hwork : workSlot (callers t) = some slot := by rw [hpc]; rfl
  have hfits := CallerBox.slots h slot hlt
  rw [hphase] at hfits
  have hresult : (rpc.outgoing.messages slot).result = value := hfits.2.2.2.2.2.2.2
  refine CallerBox.moved h hlt (rpc.outgoing.messages slot) (.busy token call (.taken value)) hd
    ⟨rfl, rfl, rfl⟩ (Function.update_eq_self _ _).symm
    (.same (fun _ _ => Iff.rfl) (fun _ _ => Iff.rfl) (by simp [workSlot])
      (CallerBox.alone h hwork)) hfits ?_ ?_ (CallerBox.ledger h) ?_
  · rw [hresult]
    exact ⟨hlt, call, Function.update_self _ _ _⟩
  · exact fun k hk hk' hwait => absurd hwait (CallerBox.not_waitable h hwork k hk hk')
  · rw [← hphase, Function.update_eq_self]
    exact Progress.refl _ _ _

/-- One more returned value keeps the ledger. -/
theorem AccountFits.give {counter token value : ℕ} (h : AccountFits counter account)
    (hissued : account.issued token ≠ []) (hreturned : account.returned token = [])
    (rpc : BoxRpc) :
    AccountFits counter (account.note rpc (.finished token slot value) .idle) := by
  refine ⟨h.counter, fun k hk => ?_, h.issued, fun k => ?_⟩
  · obtain ⟨hi, hr, ht⟩ := h.fresh k hk
    refine ⟨hi, ?_, ht⟩
    simp only [Account.note]
    rw [Function.update_of_ne (by rintro rfl; exact hissued hi)]
    exact hr
  · simp only [Account.note]
    by_cases hk : k = token
    · subst hk
      simp [hreturned]
    · rw [Function.update_of_ne hk]
      exact h.returned k

/-- A slot is freed after its value has been read, and the value is returned. -/
theorem moved_free (hd : DescribesBox rpc lists)
    (h : CallerFits rpc lists.outFree lists.out phase callers account) {token value : ℕ}
    {pc' : CallerPc} (hpc : callers t = .finished token slot value)
    (hs : callerStep rpc (.finished token slot value) .free = some (rpc', pc')) :
    Moved rpc lists phase account rpc' (Function.update callers t pc')
      (account.note rpc (.finished token slot value) pc') := by
  have hthread := CallerBox.threads h t
  rw [hpc] at hthread
  obtain ⟨hlt, call, hphase⟩ := hthread
  have hwork : workSlot (callers t) = some slot := by rw [hpc]; rfl
  have hfits := CallerBox.slots h slot hlt
  rw [hphase] at hfits
  obtain ⟨hfree, hoccupant, hmod, hissued, hreturned, hout, hsem, hresult⟩ := hfits
  obtain ⟨queues, hfreed, hr, hlock, hheader⟩ := freeOutgoingMsg_held hd.outgoing hd.outgoing_lock
    ⟨hlt, hfree, fun _ => hout⟩
  simp only [callerStep, hfreed, Option.map_some] at hs
  cases hs
  refine CallerBox.moved h hlt (rpc.outgoing.messages slot) .free
    (describesBox_withOutgoing hd hr hlock) ⟨rfl, rfl, hheader⟩
    (Function.update_eq_self _ _).symm ?_ ?_ trivial ?_
    ((CallerBox.ledger h).give (by simp [hissued]) hreturned rpc) ?_
  · refine ⟨fun s hs => by simp [hs], fun _ _ => Iff.rfl, fun s hs => ?_, fun k hk => ⟨rfl, ?_, id⟩,
      by simp [workSlot], CallerBox.alone h hwork⟩
    · exact Function.update_of_ne hs _ _
    · refine Function.update_of_ne ?_ _ _
      rintro rfl
      exact hk hmod
  · exact ⟨List.mem_cons_self, hsem⟩
  · exact fun k hk hk' hwait => absurd hwait (CallerBox.not_waitable h hwork k hk hk')
  · refine .update (by simp [hphase]) (by simp) (by simp) (by simp) (fun _ _ => rfl) ?_
    intro k v hv
    by_cases hk : k = token
    · subst hk
      simp only [Account.note, Function.update_self, hreturned, List.nil_append,
        List.mem_singleton] at hv
      subst hv
      exact .inr ⟨slot, hlt, call, hphase⟩
    · simp only [Account.note, Function.update_of_ne hk] at hv
      exact .inl hv

/-- Every step of a calling thread leaves the calling side in order. -/
theorem callerStep_moved (hd : DescribesBox rpc lists)
    (h : CallerFits rpc lists.outFree lists.out phase callers account) {next : CallerStep}
    {pc' : CallerPc} (hs : callerStep rpc (callers t) next = some (rpc', pc'))
    (hhonest : ∀ result, next = .wait result → result ∈ account.tokens)
    (hsends : (account.note rpc (callers t) pc').sends < 2^21) :
    Moved rpc lists phase account rpc' (Function.update callers t pc')
      (account.note rpc (callers t) pc') := by
  cases hpc : callers t with
  | idle =>
    rw [hpc] at hs
    cases next with
    | claim call sync => exact moved_claim hd h hpc hs
    | wait result => exact moved_wait hd h hpc (hhonest result rfl) hs
    | _ => cases hs
  | claimed call sync slot =>
    rw [hpc] at hs hsends
    cases next with
    | count => exact moved_count hd h hpc hs hsends
    | _ => cases hs
  | counted call sync slot n =>
    rw [hpc] at hs
    cases next with
    | fill => exact moved_fill hd h hpc hs
    | _ => cases hs
  | filled sync slot =>
    rw [hpc] at hs
    cases next with
    | enqueue => exact moved_enqueue hd h hpc hs
    | _ => cases hs
  | queued sync slot =>
    rw [hpc] at hs
    cases next with
    | readToken => exact moved_readToken hd h hpc hs
    | _ => cases hs
  | waiting token slot =>
    rw [hpc] at hs
    cases next with
    | pend => exact moved_pend hd h hpc hs
    | _ => cases hs
  | woken token slot =>
    rw [hpc] at hs
    cases next with
    | readResult => exact moved_readResult hd h hpc hs
    | _ => cases hs
  | finished token slot value =>
    rw [hpc] at hs
    cases next with
    | free => exact moved_free hd h hpc hs
    | _ => cases hs

end Steps

end Uvisor.RpcCallers
