import Uvisor.RpcMaliciousBoxes

/-!
# Results come from the callee

The history of an honest box is tied to the phases of its slots. A live slot
holds the message with its number, no two live slots hold the same one, and
the message of a sent slot has been delivered to the box in its phase. A pass
over finished calls completes the message of a slot sent to the box whose
queue it drains, and no other.
-/

namespace Uvisor.RpcAuthenticity

open PoolQueue PoolInvariant PoolOperations Rpc RpcApi RpcDescription RpcPasses RpcFootprint
  RpcHonestCaller RpcMaliciousBoxes Execution

open RpcSystem (CallerPc CallerStep callerStep)

/-! ## Histories -/

/-- What the history says about the messages in their phases. -/
structure Past (s : State) (phase : ℕ → Phase) : Prop where
  /-- Delivered messages have been filled in. -/
  numbered : ∀ p ∈ s.delivered, p.1 < s.sends
  /-- The message of a live slot has been filled in. -/
  current : ∀ slot, (phase slot).Live → s.number slot < s.sends
  /-- Live slots hold different messages. -/
  distinct : ∀ slot slot', (phase slot).Live → (phase slot').Live →
    s.number slot = s.number slot' → slot = slot'
  /-- The message of a ready slot has not been delivered. -/
  ready : ∀ slot, phase slot = .ready → s.number slot ∉ s.delivered.map Prod.fst
  /-- The message of a sent slot has been delivered and not been completed. -/
  sent : ∀ slot callee, phase slot = .sent callee →
    (s.number slot, callee) ∈ s.delivered ∧ s.number slot ∉ s.completed.map Prod.fst
  /-- Nothing has happened twice. -/
  once : CompletedOnce s

section Histories

variable {s s' : State} {phase phase' : ℕ → Phase} {slot callee : ℕ}

/-- A step that makes no slot live and leaves the history alone. -/
theorem Past.congr (h : Past s phase) (hsends : s'.sends = s.sends)
    (hnumber : s'.number = s.number) (hdelivered : s'.delivered = s.delivered)
    (hcompleted : s'.completed = s.completed)
    (hlive : ∀ slot, (phase' slot).Live → phase' slot = phase slot) : Past s' phase' := by
  have hold : ∀ slot, (phase' slot).Live → (phase slot).Live := fun slot hl => hlive slot hl ▸ hl
  refine ⟨?_, fun slot hl => ?_, fun slot slot' hl hl' => ?_, fun slot hp => ?_,
    fun slot callee hp => ?_, ?_⟩
  · rw [hdelivered, hsends]
    exact h.numbered
  · rw [hnumber, hsends]
    exact h.current slot (hold slot hl)
  · rw [hnumber]
    exact h.distinct slot slot' (hold slot hl) (hold slot' hl')
  · rw [hnumber, hdelivered]
    exact h.ready slot ((hlive slot (by rw [hp]; trivial)).symm.trans hp)
  · rw [hnumber, hdelivered, hcompleted]
    exact h.sent slot callee ((hlive slot (by rw [hp]; trivial)).symm.trans hp)
  · refine ⟨?_, ?_, ?_⟩
    · rw [hdelivered]
      exact h.once.delivered_once
    · rw [hcompleted]
      exact h.once.completed_once
    · rw [hcompleted, hdelivered]
      exact h.once.by_callee

/-- Filling a message in gives it a number of its own. -/
theorem Past.fill (h : Past s phase) (hsends : s'.sends = s.sends+1)
    (hnumber : s'.number = Function.update s.number slot s.sends)
    (hdelivered : s'.delivered = s.delivered) (hcompleted : s'.completed = s.completed)
    (hslot : phase' slot = .ready)
    (hlive : ∀ s, s ≠ slot → (phase' s).Live → phase' s = phase s) : Past s' phase' := by
  have hself : s'.number slot = s.sends := by rw [hnumber, Function.update_self]
  have hother : ∀ t, t ≠ slot → s'.number t = s.number t := by
    intro t ht
    rw [hnumber, Function.update_of_ne ht]
  have hcurrent : ∀ t, t ≠ slot → (phase' t).Live → s'.number t < s.sends := by
    intro t ht hl
    rw [hother t ht]
    exact h.current t (hlive t ht hl ▸ hl)
  refine ⟨fun p hp => ?_, fun t hl => ?_, fun t t' hl hl' he => ?_, fun t hp => ?_,
    fun t callee hp => ?_, ⟨?_, ?_, ?_⟩⟩
  · rw [hdelivered] at hp
    have hlt := h.numbered p hp
    omega
  · by_cases ht : t = slot
    · rw [ht, hself]
      omega
    · have hlt := hcurrent t ht hl
      omega
  · by_cases ht : t = slot <;> by_cases ht' : t' = slot
    · rw [ht, ht']
    · have hlt := hcurrent t' ht' hl'
      rw [ht, hself] at he
      omega
    · have hlt := hcurrent t ht hl
      rw [ht', hself] at he
      omega
    · rw [hother t ht, hother t' ht'] at he
      exact h.distinct t t' (hlive t ht hl ▸ hl) (hlive t' ht' hl' ▸ hl') he
  · rw [hdelivered]
    by_cases ht : t = slot
    · rw [ht, hself]
      intro hm
      obtain ⟨p, hp, he⟩ := List.mem_map.mp hm
      have hlt := h.numbered p hp
      omega
    · rw [hother t ht]
      exact h.ready t ((hlive t ht (by rw [hp]; trivial)).symm.trans hp)
  · have ht : t ≠ slot := by
      rintro rfl
      rw [hslot] at hp
      cases hp
    rw [hother t ht, hdelivered, hcompleted]
    exact h.sent t callee ((hlive t ht (by rw [hp]; trivial)).symm.trans hp)
  · rw [hdelivered]
    exact h.once.delivered_once
  · rw [hcompleted]
    exact h.once.completed_once
  · rw [hcompleted, hdelivered]
    exact h.once.by_callee

/-- The phases that are live after one slot has been sent or completed. -/
theorem live_update {next : Phase} (hslot : (phase slot).Live) {t : ℕ}
    (hl : (Function.update phase slot next t).Live) : (phase t).Live := by
  by_cases ht : t = slot
  · rw [ht]
    exact hslot
  · rwa [Function.update_of_ne ht] at hl

/-- Delivering a ready message. -/
theorem Past.deliver (h : Past s phase) (hslot : phase slot = .ready)
    (hsends : s'.sends = s.sends) (hnumber : s'.number = s.number)
    (hdelivered : s'.delivered = (s.number slot, callee) :: s.delivered)
    (hcompleted : s'.completed = s.completed) :
    Past s' (Function.update phase slot (.sent callee)) := by
  have hlive : (phase slot).Live := by
    rw [hslot]
    trivial
  have hnew := h.ready slot hslot
  refine ⟨fun p hp => ?_, fun t hl => ?_, fun t t' hl hl' he => ?_, fun t hp => ?_,
    fun t c hp => ?_, ⟨?_, ?_, fun p hp => ?_⟩⟩
  · rw [hdelivered] at hp
    rw [hsends]
    rcases List.mem_cons.mp hp with rfl | hp
    · exact h.current slot hlive
    · exact h.numbered p hp
  · rw [hnumber, hsends]
    exact h.current t (live_update hlive hl)
  · rw [hnumber] at he
    exact h.distinct t t' (live_update hlive hl) (live_update hlive hl') he
  · have ht : t ≠ slot := by
      rintro rfl
      rw [Function.update_self] at hp
      cases hp
    rw [Function.update_of_ne ht] at hp
    have hl : (phase t).Live := by
      rw [hp]
      trivial
    rw [hnumber, hdelivered, List.map_cons, List.mem_cons, not_or]
    exact ⟨fun he => ht (h.distinct t slot hl hlive he), h.ready t hp⟩
  · rw [hnumber, hdelivered, hcompleted]
    by_cases ht : t = slot
    · subst ht
      rw [Function.update_self] at hp
      cases hp
      refine ⟨List.mem_cons_self, fun hm => ?_⟩
      obtain ⟨p, hp, he⟩ := List.mem_map.mp hm
      exact hnew (he ▸ List.mem_map_of_mem (h.once.by_callee p hp))
    · rw [Function.update_of_ne ht] at hp
      obtain ⟨hd, hc⟩ := h.sent t c hp
      exact ⟨List.mem_cons_of_mem _ hd, hc⟩
  · rw [hdelivered, List.map_cons]
    exact List.nodup_cons.mpr ⟨hnew, h.once.delivered_once⟩
  · rw [hcompleted]
    exact h.once.completed_once
  · rw [hcompleted] at hp
    rw [hdelivered]
    exact List.mem_cons_of_mem _ (h.once.by_callee p hp)

/-- Completing a sent message. -/
theorem Past.complete (h : Past s phase) (hslot : phase slot = .sent callee)
    (hsends : s'.sends = s.sends) (hnumber : s'.number = s.number)
    (hdelivered : s'.delivered = s.delivered)
    (hcompleted : s'.completed = (s.number slot, callee) :: s.completed) :
    Past s' (Function.update phase slot .done) := by
  have hlive : (phase slot).Live := by
    rw [hslot]
    trivial
  obtain ⟨hmem, hnew⟩ := h.sent slot callee hslot
  have hne : ∀ t, (Function.update phase slot .done t).Live → t ≠ slot := by
    rintro t hl rfl
    rw [Function.update_self] at hl
    exact hl
  refine ⟨?_, fun t hl => ?_, fun t t' hl hl' he => ?_, fun t hp => ?_, fun t c hp => ?_,
    ⟨?_, ?_, fun p hp => ?_⟩⟩
  · rw [hdelivered, hsends]
    exact h.numbered
  · rw [hnumber, hsends]
    exact h.current t (live_update hlive hl)
  · rw [hnumber] at he
    exact h.distinct t t' (live_update hlive hl) (live_update hlive hl') he
  · have ht := hne t (by rw [hp]; trivial)
    rw [Function.update_of_ne ht] at hp
    rw [hnumber, hdelivered]
    exact h.ready t hp
  · have ht := hne t (by rw [hp]; trivial)
    rw [Function.update_of_ne ht] at hp
    have hl : (phase t).Live := by
      rw [hp]
      trivial
    obtain ⟨hd, hc⟩ := h.sent t c hp
    rw [hnumber, hdelivered, hcompleted, List.map_cons, List.mem_cons, not_or]
    exact ⟨hd, fun he => ht (h.distinct t slot hl hlive he), hc⟩
  · rw [hdelivered]
    exact h.once.delivered_once
  · rw [hcompleted, List.map_cons]
    exact List.nodup_cons.mpr ⟨hnew, h.once.completed_once⟩
  · rw [hcompleted] at hp
    rw [hdelivered]
    rcases List.mem_cons.mp hp with rfl | hp
    · exact hmem
    · exact h.once.by_callee p hp

end Histories

/-! ## Steps -/

/-- The honest box is in order, and the history agrees with its phases. -/
structure Inv (honest : ℕ) (s : State) (free out : List ℕ) (phase : ℕ → Phase) : Prop where
  /-- Slots, threads and tokens. -/
  fits : Fits (s.boxes honest).outgoing free out phase s.callers s.tokens
  /-- The history. -/
  past : Past s phase

/-- The invariant of runs. -/
def InOrder (honest : ℕ) (s : State) : Prop := ∃ free out phase, Inv honest s free out phase

section Steps

variable {sys : Platform} {honest : ℕ} {s s' : State} {free out : List ℕ} {phase : ℕ → Phase}

/-- A step of a calling thread. -/
theorem Inv.caller (h : Inv honest s free out phase) {thread : ℕ} {next : CallerStep}
    (hhonest : ∀ result, next = .wait result → result ∈ s.tokens)
    (hs : stepCaller honest s thread next = some s') : InOrder honest s' := by
  obtain ⟨⟨rpc', pc'⟩, hstep, he⟩ := Option.map_eq_some_iff.mp hs
  obtain ⟨free', out', phase', hfits, hlive⟩ := callerStep_moved h.fits hstep hhonest
  refine ⟨free', out', phase', ?_⟩
  cases pc' with
  | filled sync slot =>
    cases he
    have hthread := hfits.threads.fits thread
    rw [Function.update_self] at hthread
    refine ⟨by simpa using hfits, h.past.fill rfl rfl rfl rfl hthread.2.2 fun t ht hl => ?_⟩
    rcases hlive t hl with hsame | ⟨-, sync', hfilled⟩
    · exact hsame
    · cases hfilled
      exact absurd rfl ht
  | _ =>
    cases he
    refine ⟨by simpa using hfits, h.past.congr rfl rfl rfl rfl fun t hl => ?_⟩
    rcases hlive t hl with hsame | ⟨-, sync', hfilled⟩
    · exact hsame
    · cases hfilled

/-- A wait that times out. -/
theorem Inv.timeout (h : Inv honest s free out phase) (thread : ℕ) :
    InOrder honest {s with callers := Function.update s.callers thread .idle} := by
  obtain ⟨free', out', phase', hfits, hlive⟩ := moved_timeout (t := thread) h.fits
  refine ⟨free', out', phase', hfits, h.past.congr rfl rfl rfl rfl fun t hl => ?_⟩
  rcases hlive t hl with hsame | ⟨-, sync, hfilled⟩
  · exact hsame
  · cases hfilled

/-- A step that leaves the outgoing side, the threads and the history alone. -/
theorem Inv.keep (h : Inv honest s free out phase)
    (houtgoing : (s'.boxes honest).outgoing = (s.boxes honest).outgoing)
    (hcallers : s'.callers = s.callers) (htokens : s'.tokens = s.tokens)
    (hsends : s'.sends = s.sends) (hnumber : s'.number = s.number)
    (hdelivered : s'.delivered = s.delivered) (hcompleted : s'.completed = s.completed) :
    InOrder honest s' := by
  refine ⟨free, out, phase, ?_, h.past.congr hsends hnumber hdelivered hcompleted fun _ _ => rfl⟩
  rw [houtgoing, hcallers, htokens]
  exact h.fits

/-- What a pass over outgoing messages leaves behind. -/
theorem stepMessages_inv {box : ℕ} {firstSlot : ℤ} {locked : Bool} {stray : Outgoing}
    (hcontained : messagesContained sys box firstSlot ((ownLock honest locked).set true s.boxes)
      honest = true)
    (hs : stepMessages sys honest s box firstSlot locked stray = some s') :
    ∃ st, (drainMessageBody sys box ⟨(ownLock honest locked).set true s.boxes, firstSlot⟩ =
          .next st ∨
        drainMessageBody sys box ⟨(ownLock honest locked).set true s.boxes, firstSlot⟩ =
          .stop st) ∧
      s'.boxes = (ownLock honest locked).set false st.boxes ∧ s'.callers = s.callers ∧
      s'.tokens = s.tokens ∧ s'.sends = s.sends ∧ s'.number = s.number ∧
      s'.completed = s.completed ∧
      s'.delivered =
        match handling sys box firstSlot ((ownLock honest locked).set true s.boxes) with
        | .delivered slot callee _ =>
          if box = honest then (s.number slot, callee) :: s.delivered else s.delivered
        | _ => s.delivered := by
  unfold stepMessages at hs
  simp only [hcontained, settle, if_true] at hs
  split at hs
  · rename_i st hbody
    cases hs
    exact ⟨st, .inl hbody, rfl, rfl, rfl, rfl, rfl, rfl, rfl⟩
  · rename_i st hbody
    cases hs
    exact ⟨st, .inr hbody, rfl, rfl, rfl, rfl, rfl, rfl, rfl⟩
  · cases hs

/-- A pass over the messages of the honest box. -/
theorem Inv.honest_messages (h : Inv honest s free out phase) {firstSlot : ℤ} {locked : Bool}
    {stray : Outgoing}
    (hcontained : messagesContained sys honest firstSlot
      ((ownLock honest locked).set true s.boxes) honest = true)
    (hs : stepMessages sys honest s honest firstSlot locked stray = some s') :
    InOrder honest s' := by
  obtain ⟨st, hbody, hboxes, hcallers, htokens, hsends, hnumber, hcompleted, hdelivered⟩ :=
    stepMessages_inv hcontained hs
  obtain ⟨out', hr, hl, hh, houtcome⟩ :=
    pass_honest locked h.fits.slots.represents h.fits.slots.lock hbody
  rw [← hboxes] at hr hl hh houtcome
  cases hhandling : handling sys honest firstSlot ((ownLock honest locked).set true s.boxes) with
  | nothing =>
    rw [hhandling] at houtcome hdelivered
    obtain ⟨rfl, hm⟩ := houtcome
    have hfits := h.fits.pass_same hr hl hh hm
    rw [← hcallers, ← htokens] at hfits
    exact ⟨_, _, _, hfits, h.past.congr hsends hnumber hdelivered hcompleted fun _ _ => rfl⟩
  | cameRound slot =>
    rw [hhandling] at houtcome hdelivered
    obtain ⟨rest, rfl, rfl, hm⟩ := houtcome
    have hfits := h.fits.pass_ready hr hl hh hm fun t ht => by simp [ht]
    rw [← hcallers, ← htokens] at hfits
    exact ⟨_, _, _, hfits, h.past.congr hsends hnumber hdelivered hcompleted fun _ _ => rfl⟩
  | refused slot callee =>
    rw [hhandling] at houtcome hdelivered
    obtain ⟨rest, rfl, rfl, hm⟩ := houtcome
    have hfits := h.fits.pass_ready hr hl hh hm fun t ht => by simp [ht]
    rw [← hcallers, ← htokens] at hfits
    exact ⟨_, _, _, hfits, h.past.congr hsends hnumber hdelivered hcompleted fun _ _ => rfl⟩
  | dropped slot =>
    rw [hhandling] at houtcome hdelivered
    obtain ⟨rest, rfl, rfl, hm⟩ := houtcome
    have hfits := h.fits.pass_ready hr hl hh hm fun _ _ => Iff.rfl
    rw [← hcallers, ← htokens] at hfits
    exact ⟨_, _, _, hfits, h.past.congr hsends hnumber hdelivered hcompleted fun _ _ => rfl⟩
  | delivered slot callee fresh =>
    rw [hhandling] at houtcome hdelivered
    obtain ⟨rest, rfl, rfl, hm⟩ := houtcome
    have hready := h.fits.slots.queued List.mem_cons_self
    have hfits := h.fits.pass_delivered hr hl hh hm
    rw [← hcallers, ← htokens] at hfits
    simp only [if_true] at hdelivered
    exact ⟨_, _, _, hfits, h.past.deliver hready hsends hnumber hdelivered hcompleted⟩

/-- A pass over the messages of any box. -/
theorem Inv.messages (h : Inv honest s free out phase) {box : ℕ} {firstSlot : ℤ} {locked : Bool}
    {stray : Outgoing}
    (hcontained : messagesContained sys box firstSlot
      ((ownLock honest locked).set true s.boxes) honest = true)
    (hs : stepMessages sys honest s box firstSlot locked stray = some s') :
    InOrder honest s' := by
  by_cases hbox : box = honest
  · subst hbox
    exact h.honest_messages hcontained hs
  · obtain ⟨st, hbody, hboxes, hcallers, htokens, hsends, hnumber, hcompleted, hdelivered⟩ :=
      stepMessages_inv hcontained hs
    refine h.keep ?_ hcallers htokens hsends hnumber ?_ hcompleted
    · rw [hboxes]
      exact set_ownLock_back locked h.fits.slots.lock
        ((drainMessageBody_handled hbody).others honest (Ne.symm hbox))
    · rw [hdelivered]
      split
      · rw [if_neg hbox]
      · rfl

/-- What a pass over finished calls leaves behind. -/
theorem stepResults_inv {box : ℕ} {locked : Bool} {stray : Outgoing}
    (hcontained : resultsContained sys ((ownLock honest locked).set true s.boxes) honest box =
      true)
    (hs : stepResults sys honest s box locked stray = some s') :
    ∃ boxes, (drainResultBody sys box ((ownLock honest locked).set true s.boxes) = .next boxes ∨
        drainResultBody sys box ((ownLock honest locked).set true s.boxes) = .stop boxes) ∧
      s'.boxes = (ownLock honest locked).set false boxes ∧ s'.callers = s.callers ∧
      s'.tokens = s.tokens ∧ s'.sends = s.sends ∧ s'.number = s.number ∧
      s'.delivered = s.delivered ∧
      s'.completed =
        match completion sys box ((ownLock honest locked).set true s.boxes) with
        | some (b, slot) =>
          if b = honest then (s.number slot, box) :: s.completed else s.completed
        | none => s.completed := by
  unfold stepResults at hs
  simp only [hcontained, settle, if_true] at hs
  split at hs
  · rename_i boxes hbody
    cases hs
    exact ⟨boxes, .inl hbody, rfl, rfl, rfl, rfl, rfl, rfl, rfl⟩
  · rename_i boxes hbody
    cases hs
    exact ⟨boxes, .inr hbody, rfl, rfl, rfl, rfl, rfl, rfl, rfl⟩
  · cases hs

/-- A pass over the finished calls of any box. -/
theorem Inv.results (h : Inv honest s free out phase) {box : ℕ} {locked : Bool} {stray : Outgoing}
    (hcontained : resultsContained sys ((ownLock honest locked).set true s.boxes) honest box =
      true)
    (hcookie : cookieInRange sys honest box ((ownLock honest locked).set true s.boxes) = true)
    (hs : stepResults sys honest s box locked stray = some s') : InOrder honest s' := by
  obtain ⟨boxes, hbody, hboxes, hcallers, htokens, hsends, hnumber, hdelivered, hcompleted⟩ :=
    stepResults_inv hcontained hs
  have hdrained := drainResultBody_drained hbody
  have hback : (s'.boxes honest).outgoing.queues = (s.boxes honest).outgoing.queues := by
    rw [hboxes]
    exact set_queues_back locked h.fits.slots.lock (hdrained.queues honest)
  have hmessages : (s'.boxes honest).outgoing.messages = (boxes honest).outgoing.messages := by
    rw [hboxes, set_outgoing_messages]
  by_cases hours : ∃ slot, completion sys box ((ownLock honest locked).set true s.boxes) =
      some (honest, slot)
  · obtain ⟨slot, hsome⟩ := hours
    rw [hsome] at hcompleted
    simp only [if_true] at hcompleted
    have hslot : slot < (s.boxes honest).outgoing.queues.pool.num := by
      rw [← num_of_header () (set_outgoing_header (ownLock honest locked) true s.boxes honest)]
      simpa [cookieInRange, hsome] using hcookie
    obtain ⟨hstate, hcallee, -, -, -, count, hmsg, hcount⟩ := hdrained.completed honest slot hsome
    have hsent := h.fits.slots.sent_phase hslot hstate hcallee
    have hupdate : (s'.boxes honest).outgoing.messages =
        Function.update (s.boxes honest).outgoing.messages slot
          ((boxes honest).outgoing.messages slot) := by
      rw [hmessages]
      refine Function.eq_update_iff.mpr ⟨rfl, fun t ht => hdrained.others honest t fun he => ht ?_⟩
      rw [hsome] at he
      cases he
      rfl
    rw [hmsg] at hupdate
    have hfits := h.fits.pass_completed hslot hsent hback hupdate hcount
    rw [← hcallers, ← htokens] at hfits
    exact ⟨_, _, _, hfits, h.past.complete hsent hsends hnumber hdelivered hcompleted⟩
  · refine h.keep (outgoing_ext hback ?_) hcallers htokens hsends hnumber hdelivered ?_
    · rw [hmessages]
      funext slot
      exact hdrained.others honest slot fun he => hours ⟨slot, he⟩
    · rw [hcompleted]
      split
      · rename_i b slot hsome
        refine if_neg ?_
        rintro rfl
        exact hours ⟨slot, hsome⟩
      · rfl

/-- Every allowed step keeps the invariant. -/
theorem inOrder_step {a : Action} (h : InOrder honest s) (ha : Allowed sys honest s a)
    (hs : step sys honest s a = some s') : InOrder honest s' := by
  obtain ⟨free, out, phase, h⟩ := h
  cases a with
  | caller thread next =>
    refine h.caller (fun result hwait => ?_) hs
    subst hwait
    exact ha
  | timeout thread =>
    simp only [step] at hs
    split at hs
    · cases hs
      exact h.timeout thread
    · cases hs
  | others boxes =>
    cases hs
    exact h.keep (by simp [withOutgoingSide]) rfl rfl rfl rfl rfl rfl
  | drainMessages box =>
    simp only [step] at hs
    split at hs
    · cases hs
      exact h.keep rfl rfl rfl rfl rfl rfl rfl
    · cases hs
  | drainResults box =>
    simp only [step] at hs
    split at hs
    · cases hs
      exact h.keep rfl rfl rfl rfl rfl rfl rfl
    · cases hs
  | pass locked stray =>
    simp only [step] at hs
    simp only [Allowed] at ha
    cases hmonitor : s.monitor with
    | idle =>
      rw [hmonitor] at hs
      cases hs
    | messages box firstSlot =>
      rw [hmonitor] at hs ha
      exact h.messages ha hs
    | results box =>
      rw [hmonitor] at hs ha
      exact h.results ha.1 ha.2 hs

/-- The honest box is in order at the start. -/
theorem inOrder_initial (h : Initial honest s) : InOrder honest s := by
  obtain ⟨layout, rpc, houtgoing, hcleared⟩ := h.outgoing
  have hbox := initialize_describes layout rpc
  have hnum : (uvisorInitializeRpcQueues layout rpc).outgoing.queues.pool.num = 8 := rfl
  refine ⟨List.range outgoingMessageSlots, [], fun _ => .free, ⟨⟨?_, ?_, ?_⟩, ?_⟩⟩
  · rw [houtgoing]
    refine ⟨hbox.outgoing, hbox.outgoing_lock, fun slot hslot => ?_, fun slot hslot => ?_⟩
    · rw [hnum] at hslot
      refine ⟨List.mem_range.mpr hslot, ?_, ?_⟩
      · simp [uvisorInitializeRpcQueues, outgoingMessageSlots, hslot, semaphoreInitCount]
      · simp [uvisorInitializeRpcQueues, outgoingMessageSlots, hslot, (hcleared slot).1]
    · rw [hnum] at hslot ⊢
      simp [uvisorInitializeRpcQueues, outgoingMessageSlots, hslot, (hcleared slot).2,
        uvisorResultSlot]
  · refine ⟨fun t => ?_, fun t t' slot ht => ?_⟩
    · rw [h.callers]
      trivial
    · rw [h.callers] at ht
      cases ht
  · rw [h.tokens]
    simp
  · refine ⟨?_, fun slot hl => hl.elim, fun slot slot' hl => hl.elim, fun slot hp => ?_,
      fun slot callee hp => ?_, ⟨?_, ?_, ?_⟩⟩
    · simp [h.delivered]
    · cases hp
    · cases hp
    · simp [h.delivered]
    · simp [h.completed]
    · simp [h.completed]

/-- Every state of a run is in order. -/
theorem inOrder_reachable (h : Reachable (Initial honest) (step sys honest) (Allowed sys honest) s) :
    InOrder honest s :=
  h.invariant (InOrder honest) (fun _ => inOrder_initial) fun _ _ _ hinv ha hs =>
    inOrder_step hinv ha hs

end Steps

/-! ## A replayed result -/

instance (sys : Platform) (honest : ℕ) (s : State) :
    (a : Action) → Decidable (Allowed sys honest s a)
  | .caller _ (.wait result) => inferInstanceAs (Decidable (result ∈ s.tokens))
  | .pass locked stray =>
    let boxes := (ownLock honest locked).set true s.boxes
    match hm : s.monitor with
    | .idle => .isTrue (by simp [Allowed, hm])
    | .messages box firstSlot =>
      decidable_of_iff (messagesContained sys box firstSlot boxes honest = true)
        (by simp [Allowed, hm, boxes])
    | .results box =>
      decidable_of_iff (resultsContained sys boxes honest box = true ∧
        cookieInRange sys honest box boxes = true) (by simp [Allowed, hm, boxes])
  | .caller _ (.claim _ _) | .caller _ .count | .caller _ .fill | .caller _ .enqueue
  | .caller _ .readToken | .caller _ .pend | .caller _ .readResult | .caller _ .free
  | .timeout _ | .others _ | .drainMessages _ | .drainResults _ =>
    inferInstanceAs (Decidable True)

/-- The small system before anything has happened. -/
def quietState : State :=
  ⟨bootedBoxes, fun _ => .idle, .idle, [], 0, fun _ => 0, [], []⟩

theorem quietState_initial : Initial 0 quietState :=
  ⟨⟨smallLayout 0, zeroBox, rfl, fun _ => ⟨rfl, rfl⟩⟩, fun _ => rfl, rfl, rfl, rfl, rfl⟩

/-- Box 1 claims to have finished the call of box 0 with the first token. -/
def answeringBoxes : Boxes :=
  let incoming := (bootedBoxes 1).incoming
  let queues := (uvisorPoolQueueTryEnqueue (uvisorPoolTryAllocate incoming.queues).2 .done 0).2
  let msg := incoming.messages 0
  (bootedBoxes.setIncoming 1 queues).setIncomingMessage 1 0
    {msg with otherBoxId := 0, matchCookie := 0x800, result := 7, state := .done}

/-- A call of box 0, whose result box 1 returns a second time after the call. -/
def replayedCall : List Action :=
  let stray := (bootedBoxes 0).outgoing
  [.caller 0 (.claim ⟨1, 2, 3, 4, 0x2000⟩ true), .caller 0 .count, .caller 0 .fill,
    .caller 0 .enqueue, .drainMessages 0, .pass false stray, .pass true stray,
    .caller 0 .readToken, .others answeringBoxes, .drainResults 1, .pass false stray,
    .pass false stray, .caller 0 .pend, .caller 0 .readResult, .caller 0 .free,
    .others answeringBoxes, .drainResults 1, .pass false stray, .pass false stray]

end Uvisor.RpcAuthenticity
