import Uvisor.RpcCallees

/-!
# End-to-end integrity of remote calls

Every message on its way is tied to exactly one outgoing slot: the slot of the
call says in which slot of which callee its message is, and the message names
the box and the token of the call. The tie is made by a delivery and undone by
the copy of the result, and every other step leaves it alone. So every value
that is returned comes from the one execution of the call's own target, and
every result is copied into a slot that still belongs to its call.
-/

namespace Uvisor.RpcIntegrity

open PoolQueue PoolInvariant PoolOperations Rpc RpcApi RpcDescription RpcDrain RpcSystem RpcPasses
  RpcCallers RpcCallees Execution
open RpcHandlers (Pc HandlerStep handlerStep)

/-- The execution that a call asks for, with the value returned. -/
def executionOf (sys : Platform) (call : Call) (value : ℕ) : Execution :=
  let gateway := sys.gateway call.gateway
  ⟨(calleeBoxId sys gateway).toNat, gateway.target, call.p0, call.p1, call.p2, call.p3, value⟩

/-- No call is lost, mixed up or executed twice. -/
structure Integrity (sys : Platform) (s : State) : Prop where
  /-- A token stands for one call. -/
  issued_once : ∀ b < sys.boxCount, ∀ token, ((s.accounts b).issued token).length ≤ 1
  /-- No call's target is executed twice. -/
  executed_once : ∀ b token, (s.executions b token).length ≤ 1
  /-- Every execution is that of a call's own target, on the call's own
  arguments, in the callee box. -/
  executed : ∀ b token, ∀ execution ∈ s.executions b token, ∃ call,
    (s.accounts b).issued token = [call] ∧ execution = executionOf sys call execution.value
  /-- No call returns twice. -/
  returned_once : ∀ b < sys.boxCount, ∀ token, ((s.accounts b).returned token).length ≤ 1
  /-- Every completed call returns the value of exactly one execution of its
  target. -/
  returned : ∀ b < sys.boxCount, ∀ token, ∀ value ∈ (s.accounts b).returned token, ∃ call,
    (s.accounts b).issued token = [call] ∧
      s.executions b token = [executionOf sys call value]
  /-- Every result is copied into a slot that is used for its own call and has
  not been freed. -/
  written : ∀ w ∈ s.writes, w.occupant = some w.token ∧ w.free = false

/-! ## The invariant -/

/-- A slot is used for a call. -/
def Live (sys : Platform) (boxes : Boxes) (phase : ℕ → ℕ → Phase) (b slot token : ℕ) (call : Call)
    (stage : Stage) : Prop :=
  b < sys.boxCount ∧ slot < (boxes b).outgoing.queues.pool.num ∧
    phase b slot = .busy token call stage

/-- Both sides of all boxes are in order. -/
structure Sides (sys : Platform) (s : State) (d : ℕ → BoxLists) (phase : ℕ → ℕ → Phase) : Prop where
  /-- The pools are well formed and nobody holds a lock between the steps. -/
  describes : Describes sys s.boxes d
  /-- The calling sides. -/
  callers : ∀ b < sys.boxCount,
    CallerFits (s.boxes b) (d b).outFree (d b).out (phase b) (s.callers b) (s.accounts b)
  /-- The handling sides. -/
  handlers : ∀ b < sys.boxCount, HandlerFits (s.boxes b) (d b) (s.handlers b)

/-- The message of a delivered call. -/
structure Transit (sys : Platform) (boxes : Boxes) (handlers : ℕ → Pc) (executions : Executions)
    (d : ℕ → BoxLists) (b token : ℕ) (call : Call) (callee calleeSlot : ℕ) : Prop where
  /-- The callee is a box of the system. -/
  callee_lt : callee < sys.boxCount
  /-- The gateway has been validated. -/
  gateway : isValidRpcGateway sys call.gateway = true
  /-- The callee is the box that the gateway names. -/
  target : calleeBoxId sys (sys.gateway call.gateway) = callee
  /-- The caller's queue has been validated. -/
  queue : isValidQueue sys (sys.outgoingQueue b) (boxes b).outgoing.queues () b = true
  /-- The message carries the call. -/
  carries : callOf ((boxes callee).incoming.messages calleeSlot) = call
  /-- The message names the calling box. -/
  caller : ((boxes callee).incoming.messages calleeSlot).otherBoxId = b
  /-- The message names the token. -/
  cookie : ((boxes callee).incoming.messages calleeSlot).matchCookie = token
  /-- The message waits for its execution or has been executed once. -/
  progress : (Waiting (d callee) (handlers callee) calleeSlot ∧ executions b token = []) ∨
    (Executed (d callee) (handlers callee) calleeSlot ∧ executions b token =
      [executionOf sys call ((boxes callee).incoming.messages calleeSlot).result])

/-- Calls and messages on their way belong together. -/
structure Flights (sys : Platform) (boxes : Boxes) (handlers : ℕ → Pc) (executions : Executions)
    (d : ℕ → BoxLists) (phase : ℕ → ℕ → Phase) : Prop where
  /-- A call that has not been delivered has not been executed. -/
  unsent : ∀ b slot token call stage, Live sys boxes phase b slot token call stage →
    stage.Unsent → executions b token = []
  /-- A value that has come back is that of the one execution. -/
  value : ∀ b slot token call stage v, Live sys boxes phase b slot token call stage →
    stage.value = some v → executions b token = [executionOf sys call v]
  /-- A delivered call has a message. -/
  sent : ∀ b slot token call callee calleeSlot,
    Live sys boxes phase b slot token call (.sent callee calleeSlot) →
    Transit sys boxes handlers executions d b token call callee calleeSlot
  /-- A message on its way belongs to a call. -/
  origin : ∀ callee < sys.boxCount, ∀ calleeSlot,
    Waiting (d callee) (handlers callee) calleeSlot ∨
      Executed (d callee) (handlers callee) calleeSlot →
    ∃ b slot token call, Live sys boxes phase b slot token call (.sent callee calleeSlot)

/-- What has happened so far has happened as it should. -/
structure History (sys : Platform) (accounts : ℕ → Account) (executions : Executions)
    (writes : List Write) : Prop where
  /-- No call's target has been executed twice. -/
  executed_once : ∀ b token, (executions b token).length ≤ 1
  /-- Every execution is that of a call. -/
  executed : ∀ b token, ∀ execution ∈ executions b token, ∃ call,
    (accounts b).issued token = [call] ∧ execution = executionOf sys call execution.value
  /-- Every returned value is that of the one execution. -/
  returned : ∀ b < sys.boxCount, ∀ token, ∀ value ∈ (accounts b).returned token, ∃ call,
    (accounts b).issued token = [call] ∧ executions b token = [executionOf sys call value]
  /-- Every result has been copied into a slot of its call. -/
  written : ∀ w ∈ writes, w.occupant = some w.token ∧ w.free = false

/-- The monitor drains the queue of a box of the system, which it has
validated. -/
def MonitorFits (sys : Platform) (boxes : Boxes) : Monitor → Prop
  | .idle => True
  | .messages b _ => b < sys.boxCount ∧
      isValidQueue sys (sys.outgoingQueue b) (boxes b).outgoing.queues () b = true
  | .results b => b < sys.boxCount

/-- The invariant of the system. -/
structure Inv (sys : Platform) (s : State) (d : ℕ → BoxLists) (phase : ℕ → ℕ → Phase) : Prop where
  /-- Both sides of all boxes. -/
  sides : Sides sys s d phase
  /-- The messages on their way. -/
  flights : Flights sys s.boxes s.handlers s.executions d phase
  /-- The past. -/
  history : History sys s.accounts s.executions s.writes
  /-- The monitor. -/
  monitor : MonitorFits sys s.boxes s.monitor

section Facts

variable {sys : Platform} {s : State} {d : ℕ → BoxLists} {phase : ℕ → ℕ → Phase}

/-- What is known of a slot that is used for a call. -/
theorem Sides.slot (h : Sides sys s d phase) {b slot token : ℕ} {call : Call} {stage : Stage}
    (hl : Live sys s.boxes phase b slot token call stage) :
    SlotFits ((s.boxes b).outgoing.messages slot) (slot ∈ (d b).outFree) (slot ∈ (d b).out)
      (s.accounts b) slot (.busy token call stage) := by
  obtain ⟨hb, hs, hp⟩ := hl
  have hfits := CallerBox.slots (h.callers b hb) slot hs
  rwa [hp] at hfits

/-- A token is that of one slot. -/
theorem Sides.unique (h : Sides sys s d phase) {b slot slot' token : ℕ} {call call' : Call}
    {stage stage' : Stage} (hl : Live sys s.boxes phase b slot token call stage)
    (hl' : Live sys s.boxes phase b slot' token call' stage') :
    slot' = slot ∧ call' = call ∧ stage' = stage := by
  have hmod := (h.slot hl).2.2.1
  have hmod' := (h.slot hl').2.2.1
  have hslot : slot' = slot := hmod'.symm.trans hmod
  subst hslot
  have hp := hl.2.2.symm.trans hl'.2.2
  cases hp
  exact ⟨rfl, rfl, rfl⟩

/-- A message belongs to one call. -/
theorem Inv.transit_unique (h : Inv sys s d phase) {b slot token b' slot' token' callee cs : ℕ}
    {call call' : Call} (hl : Live sys s.boxes phase b slot token call (.sent callee cs))
    (hl' : Live sys s.boxes phase b' slot' token' call' (.sent callee cs)) :
    b' = b ∧ slot' = slot ∧ token' = token := by
  have ht := h.flights.sent _ _ _ _ _ _ hl
  have ht' := h.flights.sent _ _ _ _ _ _ hl'
  have hb : b' = b := by
    have hcaller := ht.caller.symm.trans ht'.caller
    omega
  have htoken : token' = token := ht'.cookie.symm.trans ht.cookie
  subst hb htoken
  exact ⟨rfl, (h.sides.unique hl hl').1, rfl⟩

/-- A message on its way is not in a free slot. -/
theorem Sides.not_free (h : Sides sys s d phase) {callee cs : ℕ} (hc : callee < sys.boxCount)
    (hw : Waiting (d callee) (s.handlers callee) cs ∨ Executed (d callee) (s.handlers callee) cs) :
    cs ∉ (d callee).inFree := by
  have hr := (h.describes callee hc).incoming
  have hf := h.handlers callee hc
  rcases hw with (hm | ⟨group, first, hpc⟩) | (hm | hpc)
  · exact hr.free_disjoint .todo cs hm
  · exact (hf.taken cs (by rw [hpc]; rfl)).2.1
  · exact hr.free_disjoint .done cs hm
  · exact (hf.taken cs (by rw [hpc]; rfl)).2.1

/-- A message does not wait for its execution after it. -/
theorem Sides.not_both (h : Sides sys s d phase) {callee cs : ℕ} (hc : callee < sys.boxCount)
    (hw : Waiting (d callee) (s.handlers callee) cs) :
    ¬Executed (d callee) (s.handlers callee) cs := by
  have hr := (h.describes callee hc).incoming
  have hf := h.handlers callee hc
  rcases hw with hm | ⟨group, first, hpc⟩
  · rintro (hm' | hpc)
    · exact hr.disjoint .todo .done (by decide) cs hm hm'
    · exact (hf.taken cs (by rw [hpc]; rfl)).2.2 .todo hm
  · rintro (hm' | hpc')
    · exact (hf.taken cs (by rw [hpc]; rfl)).2.2 .done hm'
    · rw [hpc] at hpc'
      cases hpc'

/-- A message stays on its way when its slot, its place and its executions
stay. -/
theorem Transit.congr {boxes boxes' : Boxes} {handlers handlers' : ℕ → Pc}
    {executions executions' : Executions} {d' : ℕ → BoxLists} {b token callee cs : ℕ} {call : Call}
    (h : Transit sys boxes handlers executions d b token call callee cs)
    (hheader : header (boxes' b).outgoing.queues = header (boxes b).outgoing.queues)
    (hmsg : (boxes' callee).incoming.messages cs = (boxes callee).incoming.messages cs)
    (hwaiting : Waiting (d' callee) (handlers' callee) cs ↔ Waiting (d callee) (handlers callee) cs)
    (hexecuted : Executed (d' callee) (handlers' callee) cs ↔
      Executed (d callee) (handlers callee) cs)
    (hexecutions : executions' b token = executions b token) :
    Transit sys boxes' handlers' executions' d' b token call callee cs := by
  refine ⟨h.callee_lt, h.gateway, h.target, ?_, by rw [hmsg]; exact h.carries,
    by rw [hmsg]; exact h.caller, by rw [hmsg]; exact h.cookie, ?_⟩
  · rw [isValidQueue_congr sys _ _ (congrFun hheader ())]
    exact h.queue
  · rw [hwaiting, hexecuted, hexecutions, hmsg]
    exact h.progress

/-- Which slots are used does not depend on more than the headers. -/
theorem live_congr {boxes boxes' : Boxes} {b slot token : ℕ} {call : Call} {stage : Stage}
    (hheader : header (boxes' b).outgoing.queues = header (boxes b).outgoing.queues) :
    Live sys boxes' phase b slot token call stage ↔ Live sys boxes phase b slot token call stage := by
  rw [Live, Live, num_of_header () hheader]

/-- Validation is not undone. -/
theorem MonitorFits.congr {boxes boxes' : Boxes} {monitor : Monitor}
    (h : MonitorFits sys boxes monitor)
    (hheader : ∀ c, header (boxes' c).outgoing.queues = header (boxes c).outgoing.queues) :
    MonitorFits sys boxes' monitor := by
  cases monitor with
  | idle => trivial
  | results b => exact h
  | messages b firstSlot =>
    refine ⟨h.1, ?_⟩
    rw [isValidQueue_congr sys _ _ (congrFun (hheader b) ())]
    exact h.2

/-- A box with new memory is described by new lists. -/
theorem describes_update {boxes : Boxes} (h : Describes sys boxes d) {b : ℕ} {rpc : BoxRpc}
    {lists : BoxLists} (hb : DescribesBox rpc lists) :
    Describes sys (Function.update boxes b rpc) (Function.update d b lists) := by
  intro c hc
  by_cases hcb : c = b
  · subst hcb
    simpa using hb
  · simpa [hcb] using h c hc

end Facts

/-! ## Steps of the callers -/

section Callers

variable {sys : Platform} {s : State} {d : ℕ → BoxLists} {phase : ℕ → ℕ → Phase}

/-- A call without an issued token has not been executed. -/
theorem History.fresh {accounts : ℕ → Account} {executions : Executions} {writes : List Write}
    (h : History sys accounts executions writes) {b token : ℕ}
    (hissued : (accounts b).issued token = []) : executions b token = [] := by
  cases hx : executions b token with
  | nil => rfl
  | cons execution rest =>
    obtain ⟨call, hcall, -⟩ := h.executed b token execution (by simp [hx])
    simp [hissued] at hcall

/-- Progress of the calls of one box leaves the messages on their way alone. -/
theorem Flights.progress {boxes boxes' : Boxes} {handlers : ℕ → Pc} {executions : Executions}
    {d' : ℕ → BoxLists} {b num : ℕ} {phase' : ℕ → Phase} {account account' : Account}
    (h : Flights sys boxes handlers executions d phase)
    (hprogress : Progress num (phase b) phase' account account')
    (hfresh : ∀ token, account.sends < token/2^11 → executions b token = [])
    (hheader : ∀ c, header (boxes' c).outgoing.queues = header (boxes c).outgoing.queues)
    (hincoming : ∀ c, (boxes' c).incoming = (boxes c).incoming)
    (hlists : ∀ c, (d' c).incoming = (d c).incoming) :
    Flights sys boxes' handlers executions d' (Function.update phase b phase') := by
  have hwaiting : ∀ c cs, Waiting (d' c) (handlers c) cs ↔ Waiting (d c) (handlers c) cs := by
    simp [Waiting, hlists]
  have hexecuted : ∀ c cs, Executed (d' c) (handlers c) cs ↔ Executed (d c) (handlers c) cs := by
    simp [Executed, hlists]
  have hlive : ∀ c slot token call stage,
      Live sys boxes' (Function.update phase b phase') c slot token call stage ↔
        c < sys.boxCount ∧ slot < (boxes c).outgoing.queues.pool.num ∧
          Function.update phase b phase' c slot = .busy token call stage := by
    intro c slot token call stage
    rw [Live, num_of_header () (hheader c)]
  have hsent : ∀ c slot token call callee cs,
      Live sys boxes' (Function.update phase b phase') c slot token call (.sent callee cs) ↔
        Live sys boxes phase c slot token call (.sent callee cs) := by
    intro c slot token call callee cs
    rw [hlive, Live]
    by_cases hc : c = b
    · subst hc
      rw [Function.update_self, hprogress.sent]
    · rw [Function.update_of_ne hc]
  refine ⟨fun c slot token call stage hl hu => ?_, fun c slot token call stage v hl hv => ?_,
    fun c slot token call callee cs hl => ?_, fun callee hc cs hw => ?_⟩
  · obtain ⟨hc, hslot, hp⟩ := (hlive c slot token call stage).mp hl
    by_cases hcb : c = b
    · subst hcb
      rw [Function.update_self] at hp
      rcases hprogress.unsent slot token call stage hp hu with hnew | ⟨stage', hp', hu'⟩
      · exact hfresh token hnew
      · exact h.unsent c slot token call stage' ⟨hc, hslot, hp'⟩ hu'
    · rw [Function.update_of_ne hcb] at hp
      exact h.unsent c slot token call stage ⟨hc, hslot, hp⟩ hu
  · obtain ⟨hc, hslot, hp⟩ := (hlive c slot token call stage).mp hl
    by_cases hcb : c = b
    · subst hcb
      rw [Function.update_self] at hp
      obtain ⟨stage', hp', hv'⟩ := hprogress.value slot token call stage v hp hv
      exact h.value c slot token call stage' v ⟨hc, hslot, hp'⟩ hv'
    · rw [Function.update_of_ne hcb] at hp
      exact h.value c slot token call stage v ⟨hc, hslot, hp⟩ hv
  · have ht := h.sent c slot token call callee cs ((hsent c slot token call callee cs).mp hl)
    exact ht.congr (hheader c) (by rw [hincoming]) (hwaiting callee cs) (hexecuted callee cs) rfl
  · rw [hwaiting, hexecuted] at hw
    obtain ⟨c, slot, token, call, hl⟩ := h.origin callee hc cs hw
    exact ⟨c, slot, token, call, (hsent c slot token call callee cs).mpr hl⟩

/-- Progress of the calls of one box keeps the past in order. -/
theorem Inv.history_progress (h : Inv sys s d phase) {b : ℕ} (hb : b < sys.boxCount)
    {phase' : ℕ → Phase} {account' : Account}
    (hprogress : Progress (s.boxes b).outgoing.queues.pool.num (phase b) phase' (s.accounts b)
      account') :
    History sys (Function.update s.accounts b account') s.executions s.writes := by
  have hissued : ∀ c token call, (s.accounts c).issued token = [call] →
      (Function.update s.accounts b account' c).issued token = [call] := by
    intro c token call hcall
    by_cases hc : c = b
    · subst hc
      rw [Function.update_self, hprogress.issued token (by simp [hcall]), hcall]
    · rw [Function.update_of_ne hc, hcall]
  refine ⟨h.history.executed_once, fun c token execution hx => ?_, fun c hc token value hv => ?_,
    h.history.written⟩
  · obtain ⟨call, hcall, he⟩ := h.history.executed c token execution hx
    exact ⟨call, hissued c token call hcall, he⟩
  · have hold : ∀ v ∈ (s.accounts c).returned token, ∃ call,
        (Function.update s.accounts b account' c).issued token = [call] ∧
          s.executions c token = [executionOf sys call v] := by
      intro v hv
      obtain ⟨call, hcall, hx⟩ := h.history.returned c hc token v hv
      exact ⟨call, hissued c token call hcall, hx⟩
    by_cases hcb : c = b
    · subst hcb
      rw [Function.update_self] at hv
      rcases hprogress.returned token value hv with hv | ⟨slot, hslot, call, hp⟩
      · exact hold value hv
      · have hl : Live sys s.boxes phase c slot token call (.taken value) := ⟨hb, hslot, hp⟩
        exact ⟨call, hissued c token call (h.sides.slot hl).2.2.2.1,
          h.flights.value c slot token call _ value hl rfl⟩
    · rw [Function.update_of_ne hcb] at hv
      exact hold value hv

/-- A step of a calling thread keeps the invariant. -/
theorem Inv.caller (h : Inv sys s d phase) {b t : ℕ} (hb : b < sys.boxCount) {next : CallerStep}
    {s' : State} (hs : stepCaller s b t next = some s')
    (hhonest : Honest s (.caller b t next)) (hsends : (s'.accounts b).sends < 2^21) :
    ∃ d' phase', Inv sys s' d' phase' := by
  obtain ⟨⟨rpc', pc'⟩, hstep, rfl⟩ := Option.map_eq_some_iff.mp hs
  dsimp only at hsends ⊢
  rw [Function.update_self] at hsends
  obtain ⟨free, out, phase', hd, hin, hgroups, hheader, hfits, hprogress⟩ :=
    callerStep_moved (h.sides.describes b hb) (h.sides.callers b hb) hstep
      (fun result hr => by subst hr; exact hhonest) hsends
  have hheaders : ∀ c, header (Function.update s.boxes b rpc' c).outgoing.queues =
      header (s.boxes c).outgoing.queues := fun c =>
    proj_update s.boxes b c (fun rpc => header rpc.outgoing.queues) hheader
  have hincoming : ∀ c, (Function.update s.boxes b rpc' c).incoming = (s.boxes c).incoming :=
    fun c => proj_update s.boxes b c BoxRpc.incoming hin
  have hfresh : ∀ token, (s.accounts b).sends < token/2^11 → s.executions b token = [] := by
    intro token htoken
    exact h.history.fresh ((CallerBox.ledger (h.sides.callers b hb)).fresh token htoken).1
  refine ⟨Function.update d b {d b with outFree := free, out := out},
    Function.update phase b phase', ⟨describes_update h.sides.describes hd, ?_, ?_⟩,
    h.flights.progress hprogress hfresh hheaders hincoming fun c => ?_,
    h.history_progress hb hprogress, ?_⟩
  · intro c hc
    by_cases hcb : c = b
    · subst hcb
      simpa using hfits
    · simpa [hcb] using h.sides.callers c hc
  · intro c hc
    by_cases hcb : c = b
    · subst hcb
      have hf := h.sides.handlers c hc
      simp only [Function.update_self]
      exact ⟨hf.found, by rw [hin]; exact hf.taken, by rw [hgroups]; exact hf.publishing⟩
    · simpa [hcb] using h.sides.handlers c hc
  · by_cases hcb : c = b
    · subst hcb
      simp
    · simp [hcb]
  · exact h.monitor.congr hheaders

end Callers

/-! ## Steps of the handlers -/

section Handlers

variable {sys : Platform} {s : State} {d : ℕ → BoxLists} {phase : ℕ → ℕ → Phase}

/-- Steps that call no target leave the executions alone. -/
theorem record_of_ne (box : ℕ) (rpc : BoxRpc) (executions : Executions) {pc : Pc}
    (h : ∀ slot, pc ≠ .ran slot) : record sys box rpc executions pc = executions := by
  cases pc with
  | ran slot => exact absurd rfl (h slot)
  | _ => rfl

/-- A message that the handler holds has a gateway with a good magic. -/
theorem Inv.magic (h : Inv sys s d phase) {c : ℕ} (hc : c < sys.boxCount) (group slot : ℕ)
    (first : Bool) (hpc : s.handlers c = .holding group slot first) :
    hasGatewayMagic sys ((s.boxes c).incoming.messages slot) = true := by
  obtain ⟨b, callerSlot, token, call, hl⟩ :=
    h.flights.origin c hc slot (.inl (.inr ⟨group, first, hpc⟩))
  have ht := h.flights.sent _ _ _ _ _ _ hl
  have hgateway : ((s.boxes c).incoming.messages slot).gateway = call.gateway :=
    congrArg Call.gateway ht.carries
  have hvalid := ht.gateway
  simp only [isValidRpcGateway, Bool.and_eq_true, Bool.or_eq_true, decide_eq_true_eq] at hvalid
  simp only [hasGatewayMagic, hgateway, Bool.or_eq_true, decide_eq_true_eq]
  exact hvalid.1.1.1.1.2

/-- Messages that only move between the queues stay on their way. -/
theorem Flights.moved {boxes boxes' : Boxes} {handlers handlers' : ℕ → Pc} {executions : Executions}
    {d' : ℕ → BoxLists} (h : Flights sys boxes handlers executions d phase)
    (hheader : ∀ c, header (boxes' c).outgoing.queues = header (boxes c).outgoing.queues)
    (hmessages : ∀ c, (boxes' c).incoming.messages = (boxes c).incoming.messages)
    (hwaiting : ∀ c cs, Waiting (d' c) (handlers' c) cs ↔ Waiting (d c) (handlers c) cs)
    (hexecuted : ∀ c cs, Executed (d' c) (handlers' c) cs ↔ Executed (d c) (handlers c) cs) :
    Flights sys boxes' handlers' executions d' phase := by
  refine ⟨fun c slot token call stage hl => ?_, fun c slot token call stage v hl => ?_,
    fun c slot token call callee cs hl => ?_, fun callee hc cs hw => ?_⟩
  · exact h.unsent c slot token call stage ((live_congr (hheader c)).mp hl)
  · exact h.value c slot token call stage v ((live_congr (hheader c)).mp hl)
  · have ht := h.sent c slot token call callee cs ((live_congr (hheader c)).mp hl)
    exact ht.congr (hheader c) (by rw [hmessages]) (hwaiting callee cs) (hexecuted callee cs) rfl
  · rw [hwaiting, hexecuted] at hw
    obtain ⟨c, slot, token, call, hl⟩ := h.origin callee hc cs hw
    exact ⟨c, slot, token, call, (live_congr (hheader c)).mpr hl⟩

/-- The call that a held message belongs to, and that it has not been executed. -/
theorem Inv.held (h : Inv sys s d phase) {c group slot : ℕ} {first : Bool} (hc : c < sys.boxCount)
    (hpc : s.handlers c = .holding group slot first) :
    ∃ b callerSlot token call, Live sys s.boxes phase b callerSlot token call (.sent c slot) ∧
      Transit sys s.boxes s.handlers s.executions d b token call c slot ∧
      s.executions b token = [] := by
  have hwaiting : Waiting (d c) (s.handlers c) slot := .inr ⟨group, first, hpc⟩
  obtain ⟨b, callerSlot, token, call, hl⟩ := h.flights.origin c hc slot (.inl hwaiting)
  have ht := h.flights.sent _ _ _ _ _ _ hl
  refine ⟨b, callerSlot, token, call, hl, ht, ?_⟩
  rcases ht.progress with ⟨-, hx⟩ | ⟨hexecuted, -⟩
  · exact hx
  · exact absurd hexecuted (h.sides.not_both hc hwaiting)

/-- One more execution of a call that had none. -/
def executedBy (executions : Executions) (b token : ℕ) (execution : Execution) : Executions :=
  Function.update executions b (Function.update (executions b) token [execution])

theorem executedBy_self (executions : Executions) (b token : ℕ) (execution : Execution) :
    executedBy executions b token execution b token = [execution] := by
  simp [executedBy]

theorem executedBy_of_ne (executions : Executions) {b token b' token' : ℕ} (execution : Execution)
    (h : ¬(b' = b ∧ token' = token)) :
    executedBy executions b token execution b' token' = executions b' token' := by
  by_cases hb : b' = b
  · subst hb
    have ht : token' ≠ token := fun ht => h ⟨rfl, ht⟩
    simp [executedBy, ht]
  · simp [executedBy, hb]

/-- Calling the target of a held message. -/
theorem Inv.flights_called (h : Inv sys s d phase) {b callerSlot token c group slot value : ℕ}
    {call : Call} {first : Bool} {boxes' : Boxes} {d' : ℕ → BoxLists}
    (hl : Live sys s.boxes phase b callerSlot token call (.sent c slot))
    (hpc : s.handlers c = .holding group slot first)
    (hout : ∀ c, (boxes' c).outgoing = (s.boxes c).outgoing)
    (hothers : ∀ c' cs, ¬(c' = c ∧ cs = slot) →
      (boxes' c').incoming.messages cs = (s.boxes c').incoming.messages cs)
    (hmsg : (boxes' c).incoming.messages slot =
      {(s.boxes c).incoming.messages slot with result := value, state := .done})
    (hlists : ∀ c, (d' c).incoming = (d c).incoming) :
    Flights sys boxes' (Function.update s.handlers c (.ran slot))
      (executedBy s.executions b token (executionOf sys call value)) d' phase := by
  have hheader : ∀ c, header (boxes' c).outgoing.queues = header (s.boxes c).outgoing.queues :=
    fun c => by rw [hout]
  have hstage : ∀ b' slot' token' call' stage', Live sys s.boxes phase b' slot' token' call' stage' →
      b' = b ∧ token' = token → slot' = callerSlot ∧ call' = call ∧ stage' = .sent c slot := by
    rintro b' slot' token' call' stage' hl' ⟨rfl, rfl⟩
    exact h.sides.unique hl hl'
  have hwaiting : ∀ c' cs, ¬(c' = c ∧ cs = slot) →
      (Waiting (d' c') (Function.update s.handlers c (.ran slot) c') cs ↔
        Waiting (d c') (s.handlers c') cs) := by
    intro c' cs hne
    by_cases hc : c' = c
    · subst hc
      have hcs : slot ≠ cs := fun he => hne ⟨rfl, he.symm⟩
      simp [Waiting, hlists, hpc, hcs]
    · simp [Waiting, hlists, hc]
  have hexecuted : ∀ c' cs, ¬(c' = c ∧ cs = slot) →
      (Executed (d' c') (Function.update s.handlers c (.ran slot) c') cs ↔
        Executed (d c') (s.handlers c') cs) := by
    intro c' cs hne
    by_cases hc : c' = c
    · subst hc
      have hcs : slot ≠ cs := fun he => hne ⟨rfl, he.symm⟩
      simp [Executed, hlists, hpc, hcs]
    · simp [Executed, hlists, hc]
  refine ⟨fun b' slot' token' call' stage' hl' hu => ?_,
    fun b' slot' token' call' stage' v hl' hv => ?_,
    fun b' slot' token' call' callee cs hl' => ?_, fun callee hc cs hw => ?_⟩
  · rw [live_congr (hheader b')] at hl'
    have hne : ¬(b' = b ∧ token' = token) := by
      intro he
      obtain ⟨-, -, rfl⟩ := hstage _ _ _ _ _ hl' he
      exact hu
    rw [executedBy_of_ne _ _ hne]
    exact h.flights.unsent _ _ _ _ _ hl' hu
  · rw [live_congr (hheader b')] at hl'
    have hne : ¬(b' = b ∧ token' = token) := by
      intro he
      obtain ⟨-, -, rfl⟩ := hstage _ _ _ _ _ hl' he
      cases hv
    rw [executedBy_of_ne _ _ hne]
    exact h.flights.value _ _ _ _ _ v hl' hv
  · rw [live_congr (hheader b')] at hl'
    by_cases he : b' = b ∧ token' = token
    · obtain ⟨-, rfl, hsame⟩ := hstage _ _ _ _ _ hl' he
      obtain ⟨rfl, rfl⟩ := he
      cases hsame
      have ht := h.flights.sent _ _ _ _ _ _ hl
      refine ⟨ht.callee_lt, ht.gateway, ht.target, ?_, ?_, ?_, ?_, .inr ⟨.inr ?_, ?_⟩⟩
      · rw [hout]
        exact ht.queue
      · rw [hmsg]
        exact ht.carries
      · rw [hmsg]
        exact ht.caller
      · rw [hmsg]
        exact ht.cookie
      · rw [Function.update_self]
      · rw [executedBy_self, hmsg]
    · have hne : ¬(callee = c ∧ cs = slot) := by
        rintro ⟨rfl, rfl⟩
        obtain ⟨rfl, -, rfl⟩ := h.transit_unique hl hl'
        exact he ⟨rfl, rfl⟩
      exact (h.flights.sent _ _ _ _ _ _ hl').congr (by rw [hout]) (hothers callee cs hne)
        (hwaiting callee cs hne) (hexecuted callee cs hne) (executedBy_of_ne _ _ he)
  · by_cases hne : callee = c ∧ cs = slot
    · obtain ⟨rfl, rfl⟩ := hne
      exact ⟨b, callerSlot, token, call, (live_congr (hheader b)).mpr hl⟩
    · rw [hwaiting callee cs hne, hexecuted callee cs hne] at hw
      obtain ⟨b', slot', token', call', hl'⟩ := h.flights.origin callee hc cs hw
      exact ⟨b', slot', token', call', (live_congr (hheader b')).mpr hl'⟩

/-- The past after the target of a delivered call has been called. -/
theorem Inv.history_called (h : Inv sys s d phase) {b callerSlot token c slot : ℕ} {call : Call}
    (value : ℕ) (hl : Live sys s.boxes phase b callerSlot token call (.sent c slot)) :
    History sys s.accounts (executedBy s.executions b token (executionOf sys call value))
      s.writes := by
  obtain ⟨-, -, -, hissued, hreturned, -⟩ := h.sides.slot hl
  refine ⟨fun b' token' => ?_, fun b' token' execution hx => ?_,
    fun b' hb' token' v hv => ?_, h.history.written⟩
  · by_cases he : b' = b ∧ token' = token
    · obtain ⟨rfl, rfl⟩ := he
      simp [executedBy_self]
    · rw [executedBy_of_ne _ _ he]
      exact h.history.executed_once b' token'
  · by_cases he : b' = b ∧ token' = token
    · obtain ⟨rfl, rfl⟩ := he
      rw [executedBy_self, List.mem_singleton] at hx
      subst hx
      exact ⟨call, hissued, rfl⟩
    · rw [executedBy_of_ne _ _ he] at hx
      exact h.history.executed b' token' execution hx
  · have hne : ¬(b' = b ∧ token' = token) := by
      rintro ⟨rfl, rfl⟩
      rw [hreturned] at hv
      cases hv
    rw [executedBy_of_ne _ _ hne]
    exact h.history.returned b' hb' token' v hv

/-- The execution that is recorded when the handler has called the target of a
message on its way. -/
theorem record_called {boxes : Boxes} {handlers : ℕ → Pc} {executions : Executions} {b token c slot : ℕ}
    {call : Call} (ht : Transit sys boxes handlers executions d b token call c slot)
    (hx : executions b token = []) {rpc' : BoxRpc} {value : ℕ}
    (hmsg : rpc'.incoming.messages slot =
      {(boxes c).incoming.messages slot with result := value, state := .done}) :
    record sys c rpc' executions (.ran slot) =
      executedBy executions b token (executionOf sys call value) := by
  have hcall := ht.carries
  have htarget := ht.target
  simp only [record, hmsg, ht.caller, ht.cookie, Int.toNat_natCast, hx, List.nil_append]
  rw [executedBy]
  congr 3
  rw [← hcall] at htarget ⊢
  simp only [executionOf, callOf] at htarget ⊢
  rw [htarget, Int.toNat_natCast]

/-- A step of a handler keeps the invariant. -/
theorem Inv.handler (h : Inv sys s d phase) {c : ℕ} (hc : c < sys.boxCount) {next : HandlerStep}
    {s' : State} (hs : stepHandler sys s c next = some s') :
    ∃ d' phase', Inv sys s' d' phase' := by
  obtain ⟨⟨rpc', pc'⟩, hstep, rfl⟩ := Option.map_eq_some_iff.mp hs
  obtain ⟨hout, hcounter⟩ := RpcCallees.handlerStep_outgoing hstep
  obtain ⟨incoming, groupFree, groups, hd, hfits, -, hhandled⟩ :=
    handlerStep_handled (h.sides.describes c hc) (h.sides.handlers c hc) (h.magic hc) hstep
  generalize hlists : ({d c with incoming := incoming, groupFree := groupFree, groups := groups} :
    BoxLists) = lists at hd hfits hhandled
  have hsame : lists.outFree = (d c).outFree ∧ lists.out = (d c).out := by
    subst hlists
    exact ⟨rfl, rfl⟩
  have houts : ∀ b, (Function.update s.boxes c rpc' b).outgoing = (s.boxes b).outgoing := fun b =>
    proj_update s.boxes c b BoxRpc.outgoing hout
  have hsides : Sides sys {s with
      boxes := Function.update s.boxes c rpc', handlers := Function.update s.handlers c pc'}
      (Function.update d c lists) phase := by
    refine ⟨describes_update h.sides.describes hd, fun b hb => ?_, fun b hb => ?_⟩
    · by_cases hbc : b = c
      · subst hbc
        have hcaller := h.sides.callers b hb
        simp only [Function.update_self, CallerFits, hout, hcounter, hsame.1, hsame.2] at hcaller ⊢
        exact hcaller
      · simpa [hbc] using h.sides.callers b hb
    · by_cases hbc : b = c
      · subst hbc
        simpa using hfits
      · simpa [hbc] using h.sides.handlers b hb
  have hmonitor := h.monitor.congr fun b => by rw [houts b]
  cases hhandled with
  | moved hmessages hran hwaiting hexecuted =>
    refine ⟨Function.update d c lists, phase, ⟨hsides.describes, hsides.callers, hsides.handlers⟩,
      ?_, ?_, hmonitor⟩
    · dsimp only
      rw [record_of_ne c rpc' s.executions hran]
      refine h.flights.moved (fun b => by rw [houts b]) (fun b => ?_) (fun b cs => ?_)
        (fun b cs => ?_)
      · exact proj_update s.boxes c b (fun rpc => rpc.incoming.messages) hmessages
      · by_cases hbc : b = c
        · subst hbc
          simpa using hwaiting cs
        · simp [hbc]
      · by_cases hbc : b = c
        · subst hbc
          simpa using hexecuted cs
        · simp [hbc]
    · dsimp only
      rw [record_of_ne c rpc' s.executions hran]
      exact h.history
  | called group slot first value hpc hpc' hmessages hincoming =>
    subst hpc'
    obtain ⟨b, callerSlot, token, call, hl, ht, hx⟩ := h.held hc hpc
    have hmsg : rpc'.incoming.messages slot =
        {(s.boxes c).incoming.messages slot with result := value, state := .done} := by
      rw [hmessages]
      simp [storeResult, writeIncoming]
    refine ⟨Function.update d c lists, phase, ⟨hsides.describes, hsides.callers, hsides.handlers⟩,
      ?_, ?_, hmonitor⟩
    · dsimp only
      rw [record_called ht hx hmsg]
      refine h.flights_called hl hpc houts (fun c' cs hne => ?_) ?_ fun c' => ?_
      · by_cases hcc : c' = c
        · subst hcc
          have hcs : cs ≠ slot := fun he => hne ⟨rfl, he⟩
          simp [hmessages, storeResult, writeIncoming, hcs]
        · simp [hcc]
      · rw [Function.update_self]
        exact hmsg
      · by_cases hcc : c' = c
        · subst hcc
          simpa using hincoming
        · simp [hcc]
    · dsimp only
      rw [record_called ht hx hmsg]
      exact h.history_called value hl

end Handlers

/-! ## Steps of the monitor -/

section Monitor

variable {sys : Platform} {s : State} {d d' : ℕ → BoxLists} {phase : ℕ → ℕ → Phase} {boxes' : Boxes}

/-- Messages are on their way between boxes of the system. -/
theorem Flights.memory {boxes : Boxes} {handlers : ℕ → Pc} {executions : Executions}
    (h : Flights sys boxes handlers executions d phase)
    (hboxes : ∀ b < sys.boxCount, boxes' b = boxes b) :
    Flights sys boxes' handlers executions d phase := by
  have hlive : ∀ c slot token call stage, Live sys boxes' phase c slot token call stage ↔
      Live sys boxes phase c slot token call stage := by
    intro c slot token call stage
    refine and_congr_right fun hc => ?_
    rw [hboxes c hc]
  refine ⟨fun c slot token call stage hl => ?_, fun c slot token call stage v hl => ?_,
    fun c slot token call callee cs hl => ?_, fun callee hc cs hw => ?_⟩
  · exact h.unsent c slot token call stage ((hlive c slot token call stage).mp hl)
  · exact h.value c slot token call stage v ((hlive c slot token call stage).mp hl)
  · have ht := h.sent c slot token call callee cs ((hlive _ _ _ _ _).mp hl)
    exact ht.congr (by rw [hboxes c hl.1]) (by rw [hboxes callee ht.callee_lt]) Iff.rfl Iff.rfl rfl
  · obtain ⟨c, slot, token, call, hl⟩ := h.origin callee hc cs hw
    exact ⟨c, slot, token, call, (hlive _ _ _ _ _).mpr hl⟩

/-- Only the boxes of the system matter. -/
theorem Inv.memory (h : Inv sys s d phase) (hboxes : ∀ b < sys.boxCount, boxes' b = s.boxes b) :
    Inv sys {s with boxes := boxes'} d phase := by
  refine ⟨⟨fun b hb => ?_, fun b hb => ?_, fun b hb => ?_⟩, h.flights.memory hboxes, h.history, ?_⟩
  · dsimp only
    rw [hboxes b hb]
    exact h.sides.describes b hb
  · dsimp only
    rw [hboxes b hb]
    exact h.sides.callers b hb
  · dsimp only
    rw [hboxes b hb]
    exact h.sides.handlers b hb
  · have hm := h.monitor
    dsimp only
    cases hmonitor : s.monitor with
    | idle => trivial
    | results b =>
      rw [hmonitor] at hm
      exact hm
    | messages b firstSlot =>
      rw [hmonitor] at hm
      refine ⟨hm.1, ?_⟩
      rw [hboxes b hm.1]
      exact hm.2

/-- A queued slot holds a message that is ready. -/
theorem Sides.queued (h : Sides sys s d phase) {b slot : ℕ} (hb : b < sys.boxCount)
    (hq : slot ∈ (d b).out) : ∃ token call, Live sys s.boxes phase b slot token call .ready := by
  have hr := (h.describes b hb).outgoing
  have hlt := hr.lists_lt () slot hq
  have hfits := CallerBox.slots (h.callers b hb) slot hlt
  cases hp : phase b slot with
  | free =>
    rw [hp] at hfits
    exact absurd hfits.1 (hr.free_disjoint () slot hq)
  | claimed =>
    rw [hp] at hfits
    exact absurd hq hfits.2.1
  | busy token call stage =>
    rw [hp] at hfits
    cases stage with
    | ready => exact ⟨token, call, hb, hlt, hp⟩
    | numbered => exact absurd hq hfits.2.2.2.2.2.1
    | sent callee calleeSlot => exact absurd hq hfits.2.2.2.2.2.1
    | done value => exact absurd hq hfits.2.2.2.2.2.1
    | taken value => exact absurd hq hfits.2.2.2.2.2.1

/-- A calling side whose memory and lists have not changed. -/
theorem callerFits_congr {rpc rpc' : BoxRpc} {free out : List ℕ} {p : ℕ → Phase}
    {callers : ℕ → CallerPc} {account : Account} (h : CallerFits rpc free out p callers account)
    (hheader : header rpc'.outgoing.queues = header rpc.outgoing.queues)
    (hmessages : rpc'.outgoing.messages = rpc.outgoing.messages)
    (hcounter : rpc'.resultCounter = rpc.resultCounter) :
    CallerFits rpc' free out p callers account := by
  unfold CallerFits
  rw [num_of_header () hheader, hmessages, hcounter]
  exact h

/-- A handling side whose lists have not changed. -/
theorem handlerFits_congr {rpc rpc' : BoxRpc} {lists lists' : BoxLists} {pc : Pc}
    (h : HandlerFits rpc lists pc)
    (hheader : header rpc'.incoming.queues = header rpc.incoming.queues)
    (hgroups : rpc'.fnGroups.queues = rpc.fnGroups.queues)
    (hlists : lists'.inFree = lists.inFree ∧ lists'.incoming = lists.incoming ∧
      lists'.groupFree = lists.groupFree ∧ lists'.groups = lists.groups) :
    HandlerFits rpc' lists' pc := by
  obtain ⟨hfree, hin, hgroupFree, hgroup⟩ := hlists
  refine ⟨fun group slot first hpc => ?_, fun slot hpc => ?_, fun group hpc => ?_⟩
  · rw [hin]
    exact h.found group slot first hpc
  · obtain ⟨hlt, hnf, hnq⟩ := h.taken slot hpc
    rw [hfree, hin]
    exact ⟨by rwa [num_of_header .todo hheader], hnf, hnq⟩
  · rw [hgroups, hgroupFree, hgroup]
    exact h.publishing group hpc

/-- A pass that delivers nothing only changes the order and the members of the
queue. -/
theorem Inv.requeued (h : Inv sys s d phase) {b slot : ℕ} {rest out' : List ℕ}
    (hb : b < sys.boxCount) (hq : (d b).out = slot :: rest)
    (hmem : ∀ t, t ≠ slot → (t ∈ out' ↔ t ∈ rest)) (hd : Describes sys boxes' (leaving d b out'))
    (hout : ∀ c, (boxes' c).outgoing.messages = (s.boxes c).outgoing.messages)
    (hin : ∀ c, (boxes' c).incoming.messages = (s.boxes c).incoming.messages)
    (hframe : Frame b none s.boxes boxes') :
    Sides sys {s with boxes := boxes'} (leaving d b out') phase ∧
      Flights sys boxes' s.handlers s.executions (leaving d b out') phase := by
  obtain ⟨token, call, hl⟩ := h.sides.queued hb (hq ▸ List.mem_cons_self)
  refine ⟨⟨hd, fun c hc => ?_, fun c hc => ?_⟩, h.flights.moved hframe.outgoing_header hin
    (fun c cs => by simp [Waiting]) (fun c cs => by simp [Executed])⟩
  · have hcaller := h.sides.callers c hc
    refine callerFits_congr ?_ (hframe.outgoing_header c) (hout c) (hframe.resultCounter c)
    by_cases hcb : c = b
    · subst hcb
      simp only [leaving_outFree, leaving_out, if_true]
      refine CallerBox.requeued hcaller hl.2.2 hl.2.1 (by simp [hq]) fun t ht => ?_
      rw [hmem t ht, hq]
      simp [ht]
    · simpa [hcb] using hcaller
  · refine handlerFits_congr (h.sides.handlers c hc) (hframe.incoming_header c)
      (hframe.groupQueues c) ?_
    by_cases hcb : c = b
    · subst hcb
      simp [leaving]
    · simp [leaving, hcb]

/-- One slot is used in a new way. -/
def setPhase (phase : ℕ → ℕ → Phase) (b slot : ℕ) (p : Phase) : ℕ → ℕ → Phase :=
  Function.update phase b (Function.update (phase b) slot p)

theorem setPhase_self (phase : ℕ → ℕ → Phase) (b slot : ℕ) (p : Phase) :
    setPhase phase b slot p b slot = p := by
  simp [setPhase]

theorem setPhase_of_ne {b slot c t : ℕ} (p : Phase) (h : ¬(c = b ∧ t = slot)) :
    setPhase phase b slot p c t = phase c t := by
  by_cases hc : c = b
  · subst hc
    have ht : t ≠ slot := fun ht => h ⟨rfl, ht⟩
    simp [setPhase, ht]
  · simp [setPhase, hc]

/-- The slots that are used then. -/
theorem live_setPhase {boxes : Boxes} {b slot c t token : ℕ} {p : Phase} {call : Call}
    {stage : Stage} (h : Live sys boxes (setPhase phase b slot p) c t token call stage) :
    (c = b ∧ t = slot ∧ p = .busy token call stage) ∨
      (¬(c = b ∧ t = slot) ∧ Live sys boxes phase c t token call stage) := by
  obtain ⟨hc, ht, hp⟩ := h
  by_cases hne : c = b ∧ t = slot
  · obtain ⟨rfl, rfl⟩ := hne
    rw [setPhase_self] at hp
    exact .inl ⟨rfl, rfl, hp⟩
  · rw [setPhase_of_ne p hne] at hp
    exact .inr ⟨hne, hc, ht, hp⟩

/-- A call that is live after its stage or that of another call has changed. -/
theorem live_passed {boxes boxes' : Boxes} {b slot c t token token' : ℕ} {call call' : Call}
    {stage stage' : Stage}
    (hheader : ∀ c, header (boxes' c).outgoing.queues = header (boxes c).outgoing.queues)
    (h : Live sys boxes' (setPhase phase b slot (.busy token call stage)) c t token' call' stage') :
    (c = b ∧ t = slot ∧ token' = token ∧ call' = call ∧ stage' = stage) ∨
      (¬(c = b ∧ t = slot) ∧ Live sys boxes phase c t token' call' stage') := by
  rcases live_setPhase ((live_congr (hheader c)).mp h) with ⟨hc, ht, hp⟩ | hold
  · cases hp
    exact .inl ⟨hc, ht, rfl, rfl, rfl⟩
  · exact .inr hold

theorem live_setPhase_of_ne {boxes : Boxes} {b slot c t token : ℕ} (p : Phase) {call : Call}
    {stage : Stage} (h : Live sys boxes phase c t token call stage) (hne : ¬(c = b ∧ t = slot)) :
    Live sys boxes (setPhase phase b slot p) c t token call stage :=
  ⟨h.1, h.2.1, (setPhase_of_ne p hne).trans h.2.2⟩

/-- The message that a delivery leaves on its way. -/
theorem HandedOver.transit {handlers : ℕ → Pc} {executions : Executions}
    {b slot token callee fresh : ℕ} {call : Call} {msg : Message} {boxes : Boxes}
    (hover : HandedOver b slot callee fresh boxes boxes')
    (hmsg : (boxes b).outgoing.messages slot = msg) (hcall : callOf msg = call)
    (hcookie : msg.matchCookie = token) (hdest : destination sys boxes b slot = some callee)
    (hqueue : isValidQueue sys (sys.outgoingQueue b) (boxes' b).outgoing.queues () b = true)
    (hwaiting : Waiting (d' callee) (handlers callee) fresh) (hx : executions b token = []) :
    Transit sys boxes' handlers executions d' b token call callee fresh := by
  obtain ⟨htarget, hlt⟩ := destination_callee hdest
  have hcopied := hover.copied
  rw [hmsg] at hcopied htarget
  have hgateway : msg.gateway = call.gateway := congrArg Call.gateway hcall
  refine ⟨hlt, ?_, hgateway ▸ htarget, hqueue, ?_, hcopied.otherBoxId,
    hcopied.matchCookie.trans hcookie, .inl ⟨hwaiting, hx⟩⟩
  · unfold destination at hdest
    dsimp only at hdest
    rw [hmsg, hgateway] at hdest
    split at hdest
    · rename_i hv
      exact hv.1
    · cases hdest
  · obtain ⟨h₀, h₁, h₂, h₃⟩ := hcopied.arguments
    rw [← hcall, callOf, callOf, h₀, h₁, h₂, h₃, hcopied.gateway]

end Monitor

end Uvisor.RpcIntegrity
