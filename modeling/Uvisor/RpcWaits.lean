import Uvisor.RpcCallees

/-!
# Waits for results, with timeouts

To the system of calls this adds the timeout of rpc_fncall_wait, and beside
the memory of each box a trail of its tokens: the cookies in the order in
which they were built, what each outgoing slot was last filled for, and which
waits have got past the compare-and-swap. Steps of other boxes and of the
monitor never touch the cookie that a wait compares, the counter, or the
number of slots. The synchronous call waits for ever.
-/

namespace Uvisor.RpcWaits

open PoolQueue PoolOperations Rpc RpcApi RpcHandlers RpcDescription RpcSystem RpcCallers
open RpcCallees Execution

/-! ## The trail of a box -/

/-- What has become of the call that a slot was last filled for. -/
inductive Use where
  /-- There has been none. -/
  | unused
  /-- Nobody has waited for it. -/
  | called (token : ℕ)
  /-- It is waited for, or has been. The flag tells the synchronous call, which
  waits for itself. -/
  | awaited (token : ℕ) (sync : Bool)
  deriving DecidableEq

/-- The synchronous call goes on to wait for its own result. -/
def Use.await : Use → Use
  | .called token => .awaited token true
  | use => use

/-- History of the tokens of a box. -/
structure Trail where
  /-- Cookies built so far and the slots they were built for, oldest first. -/
  built : List (ℕ × ℕ)
  /-- Waits past the compare-and-swap, by token, since the token was last put
  into a message. -/
  passed : ℕ → ℕ
  /-- Uses of the outgoing slots. -/
  use : ℕ → Use
  /-- How often each slot has been filled. -/
  fills : ℕ → ℕ

/-- The trail after a step of a calling thread, told from where the thread comes
from and where it arrives. -/
def Trail.note (trail : Trail) : CallerStep → CallerPc → CallerPc → Trail
  | .count, _, .counted _ _ slot counter =>
    {trail with built := trail.built ++ [(uvisorResultBuild counter slot, slot)]}
  | .fill, .counted _ _ slot counter, _ =>
    let token := uvisorResultBuild counter slot
    {trail with
      passed := Function.update trail.passed token 0
      use := Function.update trail.use slot (.called token)
      fills := Function.update trail.fills slot (trail.fills slot+1)}
  | .readToken, .queued true slot, _ =>
    {trail with use := Function.update trail.use slot (trail.use slot).await}
  | .wait result, _, .waiting _ slot =>
    {trail with
      passed := Function.update trail.passed result (trail.passed result+1)
      use := Function.update trail.use slot (.awaited result false)}
  | _, _, _ => trail

/-- The use of the slot that a wait has begun for. -/
def Trail.waited (trail : Trail) : CallerStep → CallerPc → Option ℕ
  | .wait _, .waiting _ slot => some (trail.fills slot)
  | _, _ => none

/-! ## The system -/

/-- A wait that has timed out. -/
structure Timeout where
  /-- Box of the caller. -/
  box : ℕ
  /-- Token that was waited for. -/
  token : ℕ
  /-- Use of its slot when the wait began. -/
  began : ℕ
  /-- Use of its slot when the wait returned. -/
  ended : ℕ
  /-- Memory of the box then. -/
  rpc : BoxRpc

/-- The system of calls, the trails of the boxes, and the waits. -/
structure State where
  /-- Memory and positions of the threads. -/
  system : RpcSystem.State
  /-- Trails of the boxes. -/
  trails : ℕ → Trail
  /-- Uses that rpc_fncall_wait is waiting for, by box and thread. -/
  waits : ℕ → ℕ → Option ℕ
  /-- Waits that have timed out. -/
  timeouts : List Timeout

/-- A step of the system, or the timeout of a thread in rpc_fncall_wait. -/
inductive Action where
  | run (a : RpcSystem.Action)
  | timeout (box thread : ℕ)

/-- The trails and the waits after a step. -/
def State.note (w : State) (s : RpcSystem.State) : RpcSystem.Action → State
  | .caller box thread next =>
    let pc := w.system.callers box thread
    let pc' := s.callers box thread
    {w with
      system := s
      trails := Function.update w.trails box ((w.trails box).note next pc pc')
      waits := Function.update w.waits box
        (Function.update (w.waits box) thread ((w.trails box).waited next pc'))}
  | _ => {w with system := s}

/-- The pend in rpc_fncall_wait gives up, and the call returns its status. -/
def stepTimeout (w : State) (box thread : ℕ) : Option State :=
  match w.system.callers box thread, w.waits box thread with
  | .waiting token slot, some use =>
    let callers := Function.update w.system.callers box
      (Function.update (w.system.callers box) thread .idle)
    some {w with
      system := {w.system with callers := callers}
      waits := Function.update w.waits box (Function.update (w.waits box) thread none)
      timeouts :=
        ⟨box, token, use, (w.trails box).fills slot, w.system.boxes box⟩ :: w.timeouts}
  | _, _ => none

/-- One step. -/
def step (sys : Platform) (w : State) : Action → Option State
  | .run a => (RpcSystem.step sys w.system a).map fun s => w.note s a
  | .timeout box thread => stepTimeout w box thread

/-- Trail of a box that has made no call. -/
def Trail.empty : Trail := ⟨[], fun _ => 0, fun _ => .unused, fun _ => 0⟩

/-- The system has been initialized in cleared memory, and nothing has
happened. -/
structure Initial (sys : Platform) (w : State) : Prop where
  /-- The queues are initialized. -/
  system : RpcSystem.Initial sys w.system
  /-- The messages are cleared. -/
  cleared : ∀ b slot, ((w.system.boxes b).outgoing.messages slot).waitCookie = 0
  /-- No cookie has been built. -/
  trails : ∀ b, w.trails b = Trail.empty
  /-- Nobody is waiting. -/
  waits : ∀ b t, w.waits b t = none
  /-- No wait has timed out. -/
  timeouts : w.timeouts = []

/-! ## What a step of somebody else keeps -/

/-- The bound, the cookies to wait for, and the counter of a box. -/
structure Keeps (rpc rpc' : BoxRpc) : Prop where
  /-- The header of the outgoing queue is the same. -/
  header : header rpc'.outgoing.queues = header rpc.outgoing.queues
  /-- The cookies are the same. -/
  cookie : ∀ slot, (rpc'.outgoing.messages slot).waitCookie = (rpc.outgoing.messages slot).waitCookie
  /-- The counter is the same. -/
  counter : rpc'.resultCounter = rpc.resultCounter

theorem Keeps.refl (rpc : BoxRpc) : Keeps rpc rpc := ⟨rfl, fun _ => rfl, rfl⟩

theorem Keeps.trans {rpc rpc' rpc'' : BoxRpc} (h : Keeps rpc rpc') (h' : Keeps rpc' rpc'') :
    Keeps rpc rpc'' :=
  ⟨h'.header.trans h.header, fun slot => (h'.cookie slot).trans (h.cookie slot),
    h'.counter.trans h.counter⟩

/-- Every box keeps them. -/
def KeepsAll (boxes boxes' : Boxes) : Prop := ∀ b, Keeps (boxes b) (boxes' b)

section Frames

variable {sys : Platform} {boxes boxes' boxes'' : Boxes} {b : ℕ}

theorem KeepsAll.refl (boxes : Boxes) : KeepsAll boxes boxes := fun _ => Keeps.refl _

theorem KeepsAll.trans (h : KeepsAll boxes boxes') (h' : KeepsAll boxes' boxes'') :
    KeepsAll boxes boxes'' := fun b => (h b).trans (h' b)

theorem keeps_setOutgoing {q : PoolQueues Unit}
    (hq : header q = header (boxes b).outgoing.queues) : KeepsAll boxes (boxes.setOutgoing b q) := by
  intro c
  refine ⟨?_, fun slot => by simp, by simp⟩
  rw [setOutgoing_queues]
  split
  · rename_i hc
    rw [hq, hc]
  · rfl

theorem keeps_setOutgoingMessage {slot : ℕ} {msg : Message}
    (hmsg : msg.waitCookie = ((boxes b).outgoing.messages slot).waitCookie) :
    KeepsAll boxes (boxes.setOutgoingMessage b slot msg) := by
  intro c
  refine ⟨by simp, fun s => ?_, by simp⟩
  rw [setOutgoingMessage_messages]
  split
  · rename_i hc
    rw [hmsg, hc.1, hc.2]
  · rfl

theorem keeps_setIncoming (q : PoolQueues IncomingName) :
    KeepsAll boxes (boxes.setIncoming b q) := fun c => ⟨by simp, by simp, by simp⟩

theorem keeps_setIncomingMessage (slot : ℕ) (msg : Message) :
    KeepsAll boxes (boxes.setIncomingMessage b slot msg) := fun c => ⟨by simp, by simp, by simp⟩

theorem keeps_setFnGroups (groups : FnGroups) : KeepsAll boxes (boxes.setFnGroups b groups) :=
  fun c => ⟨by simp, by simp, by simp⟩

theorem keeps_locks (locks : Locks) (acquired : Bool) :
    KeepsAll boxes (locks.set acquired boxes) := fun c => ⟨by simp, by simp, rfl⟩

theorem keeps_putItBack (slot : ℕ) :
    KeepsAll boxes (boxes.setOutgoing b (putItBack (boxes b).outgoing.queues () slot)) :=
  keeps_setOutgoing (header_uvisorPoolQueueTryEnqueue _ _ _)

/-- The delivery changes the state and the destination of the caller's message. -/
theorem deliver_keeps {callerBox calleeBox callerSlot calleeSlot : ℕ} {firstSlot : ℤ}
    {st : DrainState}
    (h : deliver sys callerBox calleeBox callerSlot calleeSlot firstSlot boxes = .next st ∨
      deliver sys callerBox calleeBox callerSlot calleeSlot firstSlot boxes = .stop st) :
    KeepsAll boxes st.boxes := by
  unfold deliver at h
  dsimp only at h
  have hcopied : ∀ old q, KeepsAll boxes (((boxes.setIncomingMessage calleeBox calleeSlot
      old).setOutgoingMessage callerBox callerSlot
        {(boxes callerBox).outgoing.messages callerSlot with
          otherBoxId := calleeBox, state := .sent}).setIncoming calleeBox q) := fun old q =>
    ((keeps_setIncomingMessage _ _).trans (keeps_setOutgoingMessage (by simp))).trans
      (keeps_setIncoming q)
  split at h
  · rcases h with h | h <;> cases h
    exact (hcopied _ _).trans (keeps_putItBack _)
  · split at h <;> rcases h with h | h <;> cases h
    exact (hcopied _ _).trans (keeps_setFnGroups _)

theorem forward_keeps {callerBox callerSlot : ℕ} {firstSlot : ℤ} {st : DrainState}
    (h : forward sys callerBox callerSlot firstSlot boxes = .next st ∨
      forward sys callerBox callerSlot firstSlot boxes = .stop st) :
    KeepsAll boxes st.boxes := by
  unfold forward at h
  dsimp only at h
  split at h
  · rcases h with h | h <;> cases h
    exact KeepsAll.refl _
  · split at h
    · rcases h with h | h <;> cases h
      exact KeepsAll.refl _
    · split at h
      · rcases h with h | h <;> cases h
        exact KeepsAll.refl _
      · split at h
        · exact (keeps_setIncoming _).trans (deliver_keeps h)
        · rcases h with h | h <;> cases h
          exact (keeps_setIncoming _).trans (keeps_putItBack _)

/-- A pass over outgoing messages keeps the cookies of all boxes. -/
theorem drainMessageBody_keeps {callerBox : ℕ} {st st' : DrainState}
    (h : drainMessageBody sys callerBox st = .next st' ∨
      drainMessageBody sys callerBox st = .stop st') : KeepsAll st.boxes st'.boxes := by
  have hdequeued : KeepsAll st.boxes (st.boxes.setOutgoing callerBox
      (uvisorPoolQueueTryDequeueFirst (st.boxes callerBox).outgoing.queues ()).2) :=
    keeps_setOutgoing (header_uvisorPoolQueueTryDequeueFirst _ _)
  unfold drainMessageBody at h
  dsimp only at h
  split at h
  · rcases h with h | h <;> cases h
    exact hdequeued
  · split at h
    · exact hdequeued.trans (forward_keeps h)
    · split at h
      · rcases h with h | h <;> cases h
        exact hdequeued.trans (keeps_putItBack _)
      · exact hdequeued.trans (forward_keeps h)

/-- The copy of a result changes the result, the state and the semaphore of the
caller's message. -/
theorem complete_keeps {calleeBox calleeSlot callerBox callerSlot : ℕ}
    (h : complete calleeBox calleeSlot callerBox callerSlot boxes = .next boxes' ∨
      complete calleeBox calleeSlot callerBox callerSlot boxes = .stop boxes') :
    KeepsAll boxes boxes' := by
  unfold complete at h
  dsimp only at h
  have hcopied : ∀ old q, KeepsAll boxes (((boxes.setIncomingMessage calleeBox calleeSlot
      old).setOutgoingMessage callerBox callerSlot
        {(boxes callerBox).outgoing.messages callerSlot with
          result := ((boxes calleeBox).incoming.messages calleeSlot).result
          state := .done}).setIncoming calleeBox q) := fun old q =>
    ((keeps_setIncomingMessage _ _).trans (keeps_setOutgoingMessage (by simp))).trans
      (keeps_setIncoming q)
  split at h
  · rcases h with h | h <;> cases h
    exact hcopied _ _
  · rcases h with h | h <;> cases h
    exact (hcopied _ _).trans (keeps_setOutgoingMessage (by simp))

/-- A pass over finished calls keeps the cookies of all boxes. -/
theorem drainResultBody_keeps {calleeBox : ℕ}
    (h : drainResultBody sys calleeBox boxes = .next boxes' ∨
      drainResultBody sys calleeBox boxes = .stop boxes') : KeepsAll boxes boxes' := by
  unfold drainResultBody at h
  dsimp only at h
  split at h
  · rcases h with h | h <;> cases h
    exact keeps_setIncoming _
  · split at h
    · rcases h with h | h <;> cases h
    · split at h
      · exact (keeps_setIncoming _).trans (complete_keeps h)
      · rcases h with h | h <;> cases h
        exact keeps_setIncoming _

/-- So does every step of the monitor, which moves no calling thread. -/
theorem stepMonitor_keeps {s s' : RpcSystem.State} {next : MonitorStep}
    (h : stepMonitor sys s s.monitor next = some s') :
    KeepsAll s.boxes s'.boxes ∧ s'.callers = s.callers := by
  unfold stepMonitor at h
  dsimp only at h
  split at h
  · split at h <;> cases h
    exact ⟨KeepsAll.refl _, rfl⟩
  · split at h <;> cases h
    exact ⟨KeepsAll.refl _, rfl⟩
  · unfold stepMessages at h
    split at h
    · rename_i hbody
      cases h
      exact ⟨((keeps_locks _ _).trans (drainMessageBody_keeps (.inl hbody))).trans
        (keeps_locks _ _), rfl⟩
    · rename_i hbody
      cases h
      exact ⟨((keeps_locks _ _).trans (drainMessageBody_keeps (.inr hbody))).trans
        (keeps_locks _ _), rfl⟩
    · cases h
  · unfold stepResults at h
    dsimp only at h
    split at h
    · rename_i hbody
      cases h
      exact ⟨((keeps_locks _ _).trans (drainResultBody_keeps (.inl hbody))).trans
        (keeps_locks _ _), rfl⟩
    · rename_i hbody
      cases h
      exact ⟨((keeps_locks _ _).trans (drainResultBody_keeps (.inr hbody))).trans
        (keeps_locks _ _), rfl⟩
    · cases h
  · cases h

/-- A handler works on the incoming messages and the function groups. -/
theorem handlerStep_keeps {rpc rpc' : BoxRpc} {pc pc' : Pc} {next : HandlerStep}
    (h : handlerStep sys rpc pc next = some (rpc', pc')) : Keeps rpc rpc' := by
  obtain ⟨houtgoing, hcounter⟩ := handlerStep_outgoing h
  exact ⟨by rw [houtgoing], fun slot => by rw [houtgoing], hcounter⟩

end Frames

/-! ## What a step of a calling thread does -/

/-- The thread is not about to use a slot or a counter that it has taken. -/
def Quiet : CallerPc → Prop
  | .claimed _ _ _ | .counted _ _ _ _ => False
  | _ => True

/-- Steps of a calling thread by what they do to the cookies of the box. -/
inductive Moved (rpc : BoxRpc) : CallerStep → CallerPc → BoxRpc → CallerPc → Prop where
  /-- Nothing happens to them. -/
  | quiet {next : CallerStep} {pc pc' : CallerPc} {rpc' : BoxRpc} (hkeeps : Keeps rpc rpc')
      (hnote : ∀ trail : Trail, trail.note next pc pc' = trail ∧ trail.waited next pc' = none)
      (hquiet : Quiet pc') : Moved rpc next pc rpc' pc'
  /-- A slot of the pool has been claimed. -/
  | claimed {call : Call} {sync : Bool} {slot : ℕ} {rpc' : BoxRpc} (hkeeps : Keeps rpc rpc')
      (hslot : slot < rpc'.outgoing.queues.pool.num) :
      Moved rpc (.claim call sync) .idle rpc' (.claimed call sync slot)
  /-- The counter has been incremented. -/
  | counted {call : Call} {sync : Bool} {slot : ℕ} :
      Moved rpc .count (.claimed call sync slot) (nextCounter rpc).2
        (.counted call sync slot (nextCounter rpc).1)
  /-- A cookie has been put into a message. -/
  | filled {call : Call} {sync : Bool} {slot counter : ℕ} :
      Moved rpc .fill (.counted call sync slot counter) (populate rpc call counter slot)
        (.filled sync slot)
  /-- The synchronous call goes on to wait. -/
  | synced {token slot slot' : ℕ} :
      Moved rpc .readToken (.queued true slot) rpc (.waiting token slot')
  /-- A wait has got past the compare-and-swap. -/
  | waited {result : ℕ}
      (hcookie : (rpc.outgoing.messages (uvisorResultSlot result)).waitCookie = result) :
      Moved rpc (.wait result) .idle (claimWait rpc result).2
        (.waiting result (uvisorResultSlot result))

theorem keeps_writeOutgoing {rpc : BoxRpc} {slot : ℕ} {msg : Message}
    (hmsg : msg.waitCookie = (rpc.outgoing.messages slot).waitCookie) :
    Keeps rpc (writeOutgoing rpc slot msg) := by
  refine ⟨rfl, fun s => ?_, rfl⟩
  by_cases hs : s = slot
  · subst hs
    simpa [writeOutgoing] using hmsg
  · simp [writeOutgoing, hs]

/-- Every step of a calling thread is one of these. -/
theorem callerStep_moved {rpc rpc' : BoxRpc} {pc pc' : CallerPc} {next : CallerStep}
    (h : callerStep rpc pc next = some (rpc', pc')) : Moved rpc next pc rpc' pc' := by
  have hqueues : ∀ q : PoolQueues Unit, header q = header rpc.outgoing.queues →
      Keeps rpc {rpc with outgoing := ⟨q, rpc.outgoing.messages⟩} :=
    fun q hq => ⟨hq, fun _ => rfl, rfl⟩
  unfold callerStep at h
  split at h
  · obtain ⟨claimed, hclaim, he⟩ := Option.map_eq_some_iff.mp h
    obtain ⟨out, hout, rfl⟩ := Option.map_eq_some_iff.mp hclaim
    have hkeeps := hqueues _ (header_uvisorPoolAllocate hout)
    split at he
    · cases he
      exact .quiet hkeeps (fun _ => ⟨rfl, rfl⟩) trivial
    · rename_i hnum
      cases he
      exact .claimed hkeeps (Nat.not_le.mp hnum)
  · cases h
    exact .counted
  · cases h
    exact .filled
  · obtain ⟨out, hout, he⟩ := Option.map_eq_some_iff.mp h
    obtain ⟨queues, henqueue, rfl⟩ := Option.map_eq_some_iff.mp hout
    cases he
    exact .quiet (hqueues _ (header_uvisorPoolQueueEnqueue henqueue)) (fun _ => ⟨rfl, rfl⟩) trivial
  · rename_i sync slot
    cases sync with
    | true =>
      cases h
      exact .synced
    | false =>
      cases h
      exact .quiet (Keeps.refl _) (fun _ => ⟨rfl, rfl⟩) trivial
  · rename_i result
    by_cases hcookie : (rpc.outgoing.messages (uvisorResultSlot result)).waitCookie = result
    · have hfirst : (claimWait rpc result).1 = true := by simp [claimWait, hcookie]
      simp only [hfirst, if_true] at h
      cases h
      exact .waited hcookie
    · have hrejected : claimWait rpc result = (false, rpc) := by simp [claimWait, hcookie]
      simp only [hrejected, Bool.false_eq_true, if_false] at h
      cases h
      exact .quiet (Keeps.refl _) (fun _ => ⟨rfl, rfl⟩) trivial
  · obtain ⟨out, hout, he⟩ := Option.map_eq_some_iff.mp h
    obtain ⟨count, -, rfl⟩ := Option.map_eq_some_iff.mp hout
    cases he
    exact .quiet (keeps_writeOutgoing rfl) (fun _ => ⟨rfl, rfl⟩) trivial
  · cases h
    exact .quiet (Keeps.refl _) (fun _ => ⟨rfl, rfl⟩) trivial
  · obtain ⟨out, hout, he⟩ := Option.map_eq_some_iff.mp h
    cases he
    unfold freeOutgoingMsg at hout
    split at hout
    · cases hout
    · obtain ⟨freed, hfree, rfl⟩ := Option.map_eq_some_iff.mp hout
      exact .quiet (hqueues _ (header_uvisorPoolFree hfree)) (fun _ => ⟨rfl, rfl⟩) trivial
  · cases h

/-- What one step means for one box: a calling thread of it moves, a wait of it
times out, or nothing happens that concerns its cookies. -/
inductive Effect (sys : Platform) (w : State) (a : Action) (w' : State) (b : ℕ) : Prop where
  /-- Somebody else has moved. -/
  | other (hkeeps : Keeps (w.system.boxes b) (w'.system.boxes b))
      (hcallers : w'.system.callers b = w.system.callers b) (htrail : w'.trails b = w.trails b)
      (hwaits : w'.waits b = w.waits b)
  /-- A calling thread of the box has moved. -/
  | caller (t : ℕ) (next : CallerStep) (pc' : CallerPc) (hb : b < sys.boxCount)
      (haction : a = .run (.caller b t next))
      (hmoved : Moved (w.system.boxes b) next (w.system.callers b t) (w'.system.boxes b) pc')
      (hcallers : w'.system.callers b = Function.update (w.system.callers b) t pc')
      (htrail : w'.trails b = (w.trails b).note next (w.system.callers b t) pc')
      (hwaits : w'.waits b =
        Function.update (w.waits b) t ((w.trails b).waited next pc'))
  /-- A wait of the box has timed out. -/
  | timeout (t : ℕ) (hboxes : w'.system.boxes b = w.system.boxes b)
      (hcallers : w'.system.callers b = Function.update (w.system.callers b) t .idle)
      (htrail : w'.trails b = w.trails b) (hwaits : w'.waits b = Function.update (w.waits b) t none)

/-- Every step has one of these effects on every box. -/
theorem step_effect {sys : Platform} {w w' : State} {a : Action} (h : step sys w a = some w')
    (b : ℕ) : Effect sys w a w' b := by
  cases a with
  | run a =>
    obtain ⟨s, hs, rfl⟩ := Option.map_eq_some_iff.mp h
    cases a with
    | caller c t next =>
      simp only [RpcSystem.step] at hs
      split at hs
      · rename_i hc
        obtain ⟨⟨rpc', pc'⟩, hstep, rfl⟩ := Option.map_eq_some_iff.mp hs
        by_cases hb : b = c
        · subst hb
          refine .caller t next pc' hc rfl ?_ ?_ ?_ ?_
          · simpa [State.note] using callerStep_moved hstep
          all_goals simp [State.note]
        · refine .other ?_ ?_ ?_ ?_
          · simpa [State.note, hb] using Keeps.refl _
          all_goals simp [State.note, hb]
      · cases hs
    | handler c next =>
      simp only [RpcSystem.step] at hs
      split at hs
      · obtain ⟨⟨rpc', pc'⟩, hstep, rfl⟩ := Option.map_eq_some_iff.mp hs
        refine .other ?_ rfl rfl rfl
        by_cases hb : b = c
        · subst hb
          simpa [State.note] using handlerStep_keeps hstep
        · simpa [State.note, hb] using Keeps.refl _
      · cases hs
    | monitor next =>
      obtain ⟨hkeeps, hcallers⟩ := stepMonitor_keeps hs
      exact .other (hkeeps b) (congrFun hcallers b) rfl rfl
  | timeout c t =>
    simp only [step, stepTimeout] at h
    split at h
    · cases h
      by_cases hb : b = c
      · subst hb
        exact .timeout t rfl (by simp) rfl (by simp)
      · exact .other (Keeps.refl _) (by simp [hb]) rfl (by simp [hb])
    · cases h

end Uvisor.RpcWaits
