import Uvisor.RpcIntegrity

/-!
# The monitor keeps messages and calls together

A delivery ties a slot of the callee to the slot of the call, and the copy of
the result undoes the tie. With the steps of the threads this gives integrity
of all calls in every run: what a call returns comes from the one execution
of its own target.
-/

namespace Uvisor.RpcEndToEnd

open PoolQueue PoolInvariant PoolOperations Rpc RpcApi RpcDescription RpcDrain RpcSystem RpcPasses
  RpcCallers RpcCallees RpcIntegrity Execution QueueRotation
open RpcHandlers (Pc HandlerStep)

/-! ## Passes over outgoing messages -/

section Deliveries

variable {sys : Platform} {s : State} {d d' : ℕ → BoxLists} {phase : ℕ → ℕ → Phase} {boxes' : Boxes}

/-- A delivery makes the new slot a waiting one. -/
theorem waiting_arriving {c callee fresh cs : ℕ} {rest free : List ℕ} {b : ℕ} (pc : Pc) :
    Waiting (arriving (leaving d b rest) callee fresh free c) pc cs ↔
      Waiting (d c) pc cs ∨ (c = callee ∧ cs = fresh) := by
  by_cases hc : c = callee
  · subst hc
    simp only [Waiting, arriving, Function.update_self, leaving_incoming, List.mem_append,
      List.mem_singleton, true_and]
    exact or_right_comm
  · simp [Waiting, arriving, hc]

/-- A delivery makes no slot an executed one. -/
theorem executed_arriving {c callee fresh cs : ℕ} {rest free : List ℕ} {b : ℕ} (pc : Pc) :
    Executed (arriving (leaving d b rest) callee fresh free c) pc cs ↔ Executed (d c) pc cs := by
  by_cases hc : c = callee
  · subst hc
    simp [Executed, arriving]
  · simp [Executed, arriving, hc]

/-- The message of a call on its way is not in a free slot. -/
theorem sent_not_free (h : Inv sys s d phase) {b slot token callee cs : ℕ} {call : Call}
    (hl : Live sys s.boxes phase b slot token call (.sent callee cs)) :
    cs ∉ (d callee).inFree := by
  have ht := h.flights.sent _ _ _ _ _ _ hl
  refine h.sides.not_free ht.callee_lt ?_
  rcases ht.progress with ⟨hw, -⟩ | ⟨hx, -⟩
  · exact .inl hw
  · exact .inr hx

/-- A delivery keeps the handling sides in order. -/
theorem handlerFits_delivered (h : Sides sys s d phase) {b callee fresh c : ℕ}
    {rest free : List ℕ} (hc : c < sys.boxCount) (hfree : (d callee).inFree = fresh :: free)
    (hframe : Frame b (some callee) s.boxes boxes') :
    HandlerFits (boxes' c) (arriving (leaving d b rest) callee fresh free c) (s.handlers c) := by
  have hf := h.handlers c hc
  by_cases hcc : c = callee
  · subst hcc
    have hgroups : (arriving (leaving d b rest) c fresh free c).groupFree = (d c).groupFree ∧
        (arriving (leaving d b rest) c fresh free c).groups = (d c).groups := by
      by_cases hcb : c = b
      · subst hcb
        simp [arriving, leaving]
      · simp [arriving, leaving, hcb]
    refine ⟨fun group slot first hpc => ?_, fun slot hpc => ?_, fun group hpc => ?_⟩
    · simp only [arriving, Function.update_self, leaving_incoming]
      exact List.mem_append_left _ (hf.found group slot first hpc)
    · obtain ⟨hlt, hnot, hqueues⟩ := hf.taken slot hpc
      rw [hfree, List.mem_cons, not_or] at hnot
      refine ⟨?_, ?_, fun i => ?_⟩
      · rwa [num_of_header .todo (hframe.incoming_header c)]
      · simpa using hnot.2
      · cases i with
        | todo => simpa [arriving, hnot.1] using hqueues .todo
        | done => simpa [arriving] using hqueues .done
    · rw [hframe.groupQueues, hgroups.1, hgroups.2]
      exact hf.publishing group hpc
  · refine handlerFits_congr hf (hframe.incoming_header c) (hframe.groupQueues c) ?_
    by_cases hcb : c = b
    · subst hcb
      simp [arriving, leaving, hcc]
    · simp [arriving, leaving, hcc, hcb]

/-- A delivery keeps both sides of all boxes in order. -/
theorem sides_delivered (h : Sides sys s d phase) {b slot token callee fresh : ℕ}
    {call : Call} {rest free : List ℕ} (hl : Live sys s.boxes phase b slot token call .ready)
    (hq : (d b).out = slot :: rest) (hfree : (d callee).inFree = fresh :: free)
    (hd : Describes sys boxes' (arriving (leaving d b rest) callee fresh free))
    (hover : HandedOver b slot callee fresh s.boxes boxes')
    (hframe : Frame b (some callee) s.boxes boxes') :
    Sides sys {s with boxes := boxes'} (arriving (leaving d b rest) callee fresh free)
      (setPhase phase b slot (.busy token call (.sent callee fresh))) := by
  refine ⟨hd, fun c hc => ?_, fun c hc => handlerFits_delivered h hc hfree hframe⟩
  have hcaller := h.callers c hc
  by_cases hcb : c = b
  · subst hcb
    have hnodup := (h.describes c hc).outgoing.nodup ()
    rw [hq, List.nodup_cons] at hnodup
    obtain ⟨hsem, hcookie, -⟩ : StageFits _ _ token call .ready := (h.slot hl).2.2.2.2.2
    have hmessages : (boxes' c).outgoing.messages =
        Function.update (s.boxes c).outgoing.messages slot
          {(s.boxes c).outgoing.messages slot with otherBoxId := callee, state := .sent} :=
      Function.eq_update_iff.mpr
        ⟨hover.original, fun t ht => hover.outgoing c t fun hne => ht hne.2⟩
    unfold CallerFits
    simp only [arriving_outFree, leaving_outFree, arriving_out, leaving_out, if_true, setPhase,
      Function.update_self]
    rw [num_of_header () (hframe.outgoing_header c), hmessages, hframe.resultCounter c]
    refine CallerBox.passed hcaller hl.2.2 trivial trivial (fun t ht => ?_) (fun _ => ?_) hl.2.1 rfl
      ⟨hnodup.1, hsem, hcookie, rfl, rfl⟩
    · simp [hq, ht]
    · simp [hq]
  · have hmessages : (boxes' c).outgoing.messages = (s.boxes c).outgoing.messages := by
      funext t
      exact hover.outgoing c t fun hne => hcb hne.1
    have hphase : setPhase phase b slot (.busy token call (.sent callee fresh)) c = phase c := by
      funext t
      exact setPhase_of_ne _ fun hne => hcb hne.1
    rw [hphase]
    simpa [hcb] using callerFits_congr hcaller (hframe.outgoing_header c) hmessages
      (hframe.resultCounter c)

/-- A delivery ties its message to its call, and leaves the others tied. -/
theorem flights_delivered (h : Inv sys s d phase) {b slot token callee fresh : ℕ} {call : Call}
    {rest free : List ℕ} (hl : Live sys s.boxes phase b slot token call .ready)
    (hfree : (d callee).inFree = fresh :: free)
    (hdest : destination sys s.boxes b slot = some callee)
    (hvalid : isValidQueue sys (sys.outgoingQueue b) (s.boxes b).outgoing.queues () b = true)
    (hover : HandedOver b slot callee fresh s.boxes boxes')
    (hframe : Frame b (some callee) s.boxes boxes') :
    Flights sys boxes' s.handlers s.executions (arriving (leaving d b rest) callee fresh free)
      (setPhase phase b slot (.busy token call (.sent callee fresh))) := by
  have hfits : StageFits _ _ token call .ready := (h.sides.slot hl).2.2.2.2.2
  obtain ⟨-, hcookie, hcall⟩ := hfits
  refine ⟨fun c t token' call' stage' hl' hu => ?_, fun c t token' call' stage' v hl' hv => ?_,
    fun c t token' call' callee' cs hl' => ?_, fun callee' hc cs hw => ?_⟩
  · rcases live_passed hframe.outgoing_header hl' with ⟨-, -, -, -, rfl⟩ | ⟨-, hold⟩
    · exact hu.elim
    · exact h.flights.unsent _ _ _ _ _ hold hu
  · rcases live_passed hframe.outgoing_header hl' with ⟨-, -, -, -, rfl⟩ | ⟨-, hold⟩
    · cases hv
    · exact h.flights.value _ _ _ _ _ v hold hv
  · rcases live_passed hframe.outgoing_header hl' with ⟨rfl, rfl, rfl, rfl, hstage⟩ | ⟨-, hold⟩
    · cases hstage
      refine HandedOver.transit hover rfl hcall hcookie hdest ?_ ?_
        (h.flights.unsent _ _ _ _ _ hl trivial)
      · rw [isValidQueue_congr sys _ _ (congrFun (hframe.outgoing_header c) ())]
        exact hvalid
      · exact (waiting_arriving _).mpr (.inr ⟨rfl, rfl⟩)
    · have hne : ¬(callee' = callee ∧ cs = fresh) := by
        rintro ⟨rfl, rfl⟩
        exact sent_not_free h hold (hfree ▸ List.mem_cons_self)
      refine (h.flights.sent _ _ _ _ _ _ hold).congr (hframe.outgoing_header c)
        (hover.incoming callee' cs hne) ?_ (executed_arriving _) rfl
      rw [waiting_arriving]
      exact or_iff_left hne
  · rw [waiting_arriving, executed_arriving, or_right_comm] at hw
    rcases hw with hw | ⟨rfl, rfl⟩
    · obtain ⟨c, t, token', call', hold⟩ := h.flights.origin callee' hc cs hw
      have hne : ¬(c = b ∧ t = slot) := by
        rintro ⟨rfl, rfl⟩
        have hphase := hl.2.2.symm.trans hold.2.2
        cases hphase
      exact ⟨c, t, token', call',
        (live_congr (hframe.outgoing_header c)).mpr (live_setPhase_of_ne _ hold hne)⟩
    · exact ⟨b, slot, token, call, hl.1, (num_of_header () (hframe.outgoing_header b)).symm ▸ hl.2.1,
        setPhase_self _ _ _ _⟩

/-- A pass over the outgoing messages of a box leaves the invariant in place. -/
theorem inv_fared (h : Inv sys s d phase) {b : ℕ} (hb : b < sys.boxCount)
    (hvalid : isValidQueue sys (sys.outgoingQueue b) (s.boxes b).outgoing.queues () b = true)
    {slot : ℕ} {rest : List ℕ} {fate : Fate} (hq : (d b).out = slot :: rest)
    (hd : Describes sys boxes' d') (hfared : Fared sys b slot rest s.boxes boxes' d d' fate)
    (hdest : fate = .delivered → destination sys s.boxes b slot ≠ none) :
    ∃ phase', Inv sys {s with boxes := boxes'} d' phase' ∧
      ∀ c, header (boxes' c).outgoing.queues = header (s.boxes c).outgoing.queues := by
  cases fate with
  | delivered =>
    obtain ⟨callee, fresh, free, htarget, hfree, rfl, -, hover, hframe⟩ := hfared
    obtain ⟨token, call, hl⟩ := h.sides.queued hb (hq ▸ List.mem_cons_self)
    obtain ⟨callee', hcallee⟩ := Option.ne_none_iff_exists'.mp (hdest rfl)
    have hsame : callee' = callee := by
      have hid := (destination_callee hcallee).1
      rw [htarget] at hid
      omega
    subst hsame
    exact ⟨_, ⟨sides_delivered h.sides hl hq hfree hd hover hframe,
      flights_delivered h hl hfree hcallee hvalid hover hframe, h.history,
      h.monitor.congr hframe.outgoing_header⟩, hframe.outgoing_header⟩
  | dropped =>
    obtain ⟨rfl, -, hout, hin, hframe⟩ := hfared
    obtain ⟨hsides, hflights⟩ := h.requeued hb hq (fun _ _ => Iff.rfl) hd hout hin hframe
    exact ⟨phase, ⟨hsides, hflights, h.history, h.monitor.congr hframe.outgoing_header⟩,
      hframe.outgoing_header⟩
  | kept =>
    obtain ⟨rfl, hout, hin, hframe⟩ := hfared
    obtain ⟨hsides, hflights⟩ :=
      h.requeued hb hq (fun t ht => by simp [ht]) hd hout hin hframe
    exact ⟨phase, ⟨hsides, hflights, h.history, h.monitor.congr hframe.outgoing_header⟩,
      hframe.outgoing_header⟩

/-- After a pass, the locks are free again and the monitor goes on. -/
theorem inv_unlocked {locks : Locks} {monitor : Monitor} {writes : List Write}
    (h : Inv sys {s with boxes := boxes', writes := writes} d phase)
    (hmonitor : MonitorFits sys boxes' monitor) :
    Inv sys {s with
      boxes := locks.set false (locks.set true boxes'), monitor := monitor, writes := writes}
      d phase := by
  have hinv : Inv sys {s with boxes := boxes', monitor := monitor, writes := writes} d phase :=
    ⟨⟨h.sides.describes, h.sides.callers, h.sides.handlers⟩, h.flights, h.history, hmonitor⟩
  exact hinv.memory fun b hb => set_false_set_true h.sides.describes locks hb

/-- A pass of drain_message_queue keeps the invariant. -/
theorem inv_messages (h : Inv sys s d phase) {b : ℕ} {firstSlot : ℤ} {locks : Locks} {s' : State}
    (hmonitor : s.monitor = .messages b firstSlot)
    (hs : stepMessages sys s b firstSlot locks = some s') : ∃ d' phase', Inv sys s' d' phase' := by
  have hfits := h.monitor
  rw [hmonitor] at hfits
  obtain ⟨hb, hvalid⟩ := hfits
  obtain ⟨boxes', firstSlot', d', hbody, hd, hwhat⟩ :=
    drainMessageBody_set h.sides.describes hb firstSlot locks
  obtain ⟨phase', hinv, hheader⟩ : ∃ phase', Inv sys {s with boxes := boxes'} d' phase' ∧
      ∀ c, header (boxes' c).outgoing.queues = header (s.boxes c).outgoing.queues := by
    rcases hwhat with ⟨rfl, rfl⟩ | ⟨slot, rest, fate, hq, hfared, hdest⟩
    · exact ⟨phase, h, fun _ => rfl⟩
    · exact inv_fared h hb hvalid hq hd hfared hdest
  have hgoes : MonitorFits sys boxes' (.messages b firstSlot') := by
    refine ⟨hb, ?_⟩
    rw [isValidQueue_congr sys _ _ (congrFun (hheader b) ())]
    exact hvalid
  unfold stepMessages at hs
  rcases hbody with hbody | hbody
  · rw [hbody] at hs
    cases hs
    exact ⟨d', phase', inv_unlocked hinv hgoes⟩
  · rw [hbody] at hs
    cases hs
    exact ⟨d', phase', inv_unlocked hinv trivial⟩

end Deliveries

/-! ## Passes over results -/

section Results

variable {sys : Platform} {s : State} {d : ℕ → BoxLists} {phase : ℕ → ℕ → Phase} {boxes' : Boxes}
  {c cs : ℕ} {rest : List ℕ}

/-- Collecting a result moves no message that waits for its execution. -/
theorem waiting_returning {b t : ℕ} (pc : Pc) :
    Waiting (returning d c cs rest b) pc t ↔ Waiting (d b) pc t := by
  by_cases hb : b = c
  · subst hb
    simp [Waiting, returning]
  · simp [Waiting, returning, hb]

/-- Collecting a result moves no other message that has been executed. -/
theorem executed_returning {b t : ℕ} (hq : (d c).incoming .done = cs :: rest) (pc : Pc)
    (hne : ¬(b = c ∧ t = cs)) :
    Executed (returning d c cs rest b) pc t ↔ Executed (d b) pc t := by
  by_cases hb : b = c
  · subst hb
    have ht : t ≠ cs := fun ht => hne ⟨rfl, ht⟩
    simp [Executed, returning, hq, ht]
  · simp [Executed, returning, hb]

/-- The collected message is no longer on its way. -/
theorem not_executed_returning (h : Sides sys s d phase) (hc : c < sys.boxCount)
    (hq : (d c).incoming .done = cs :: rest) :
    ¬Executed (returning d c cs rest c) (s.handlers c) cs := by
  have hnodup := (h.describes c hc).incoming.nodup .done
  rw [hq, List.nodup_cons] at hnodup
  rintro (hm | hpc)
  · simp only [returning, Function.update_self] at hm
    exact hnodup.1 hm
  · have hheld := (h.handlers c hc).taken cs (by rw [hpc]; rfl)
    exact hheld.2.2 .done (hq ▸ List.mem_cons_self)

/-- Collecting a result keeps the handling sides in order. -/
theorem handlerFits_returned (h : Sides sys s d phase) {b : ℕ} (hb : b < sys.boxCount)
    (hq : (d c).incoming .done = cs :: rest)
    (hheader : ∀ x, header (boxes' x).incoming.queues = header (s.boxes x).incoming.queues)
    (hgroups : ∀ x, (boxes' x).fnGroups = (s.boxes x).fnGroups) :
    HandlerFits (boxes' b) (returning d c cs rest b) (s.handlers b) := by
  have hf := h.handlers b hb
  by_cases hbc : b = c
  · subst hbc
    refine ⟨fun group slot first hpc => ?_, fun slot hpc => ?_, fun group hpc => ?_⟩
    · simpa [returning] using hf.found group slot first hpc
    · obtain ⟨hlt, hnot, hqueues⟩ := hf.taken slot hpc
      have hdone := hqueues .done
      rw [hq, List.mem_cons, not_or] at hdone
      refine ⟨?_, ?_, fun i => ?_⟩
      · rwa [num_of_header .todo (hheader b)]
      · simpa [returning, hdone.1] using hnot
      · cases i with
        | todo => simpa [returning] using hqueues .todo
        | done => simpa [returning] using hdone.2
    · simpa [returning, hgroups] using hf.publishing group hpc
  · refine handlerFits_congr hf (hheader b) (by rw [hgroups]) ?_
    simp [returning, hbc]

/-- What is known of the first message of a done queue. -/
theorem executed_head (h : Inv sys s d phase) (hc : c < sys.boxCount)
    (hq : (d c).incoming .done = cs :: rest) :
    ∃ b slot token call, Live sys s.boxes phase b slot token call (.sent c cs) ∧
      Transit sys s.boxes s.handlers s.executions d b token call c cs ∧
      s.executions b token =
        [executionOf sys call ((s.boxes c).incoming.messages cs).result] := by
  have hexecuted : Executed (d c) (s.handlers c) cs := .inl (hq ▸ List.mem_cons_self)
  obtain ⟨b, slot, token, call, hl⟩ := h.flights.origin c hc cs (.inr hexecuted)
  have ht := h.flights.sent _ _ _ _ _ _ hl
  refine ⟨b, slot, token, call, hl, ht, ?_⟩
  rcases ht.progress with ⟨hw, -⟩ | ⟨-, hx⟩
  · exact absurd hexecuted (h.sides.not_both hc hw)
  · exact hx

/-- The caller accepts the result of a call that has been delivered. -/
theorem acceptsResult_sent (h : Inv sys s d phase) {b slot token : ℕ} {call : Call}
    (hl : Live sys s.boxes phase b slot token call (.sent c cs))
    (ht : Transit sys s.boxes s.handlers s.executions d b token call c cs) :
    acceptsResult sys c b slot ((s.boxes c).incoming.messages cs) s.boxes = true := by
  obtain ⟨-, -, hcookie, hstate, hother⟩ : StageFits _ _ token call (.sent c cs) :=
    (h.sides.slot hl).2.2.2.2.2
  simp [acceptsResult, ht.queue, hother, hstate, hcookie, ht.cookie]

/-- Collecting a result keeps both sides of all boxes in order. -/
theorem sides_returned (h : Sides sys s d phase) {b slot token : ℕ} {call : Call}
    (hl : Live sys s.boxes phase b slot token call (.sent c cs))
    (hq : (d c).incoming .done = cs :: rest)
    (hd : Describes sys boxes' (returning d c cs rest))
    (hback : HandedBack c cs b slot s.boxes boxes') :
    Sides sys {s with boxes := boxes'} (returning d c cs rest)
      (setPhase phase b slot
        (.busy token call (.done ((s.boxes c).incoming.messages cs).result))) := by
  refine ⟨hd, fun x hx => ?_, fun x hx => handlerFits_returned h hx hq hback.header hback.fnGroups⟩
  have hcaller := h.callers x hx
  have hlists : (returning d c cs rest x).outFree = (d x).outFree ∧
      (returning d c cs rest x).out = (d x).out := by
    by_cases hxc : x = c
    · subst hxc
      simp [returning]
    · simp [returning, hxc]
  rw [hlists.1, hlists.2]
  have hheader : header (boxes' x).outgoing.queues = header (s.boxes x).outgoing.queues := by
    rw [hback.queues]
  by_cases hxb : x = b
  · subst hxb
    obtain ⟨hout, hsem, hcookie, -, -⟩ : StageFits _ _ token call (.sent c cs) :=
      (h.slot hl).2.2.2.2.2
    have hmessages : (boxes' x).outgoing.messages =
        Function.update (s.boxes x).outgoing.messages slot
          {(s.boxes x).outgoing.messages slot with
            result := ((s.boxes c).incoming.messages cs).result
            state := .done
            semaphore := semaphorePost ((s.boxes x).outgoing.messages slot).semaphore} :=
      Function.eq_update_iff.mpr
        ⟨hback.message, fun t ht => hback.outgoing x t fun hne => ht hne.2⟩
    unfold CallerFits
    simp only [setPhase, Function.update_self]
    rw [num_of_header () hheader, hmessages, hback.resultCounter x]
    refine CallerBox.passed hcaller hl.2.2 trivial trivial (fun _ _ => Iff.rfl)
      (fun hready => by cases hready) hl.2.1 rfl ⟨hout, ?_, hcookie, rfl⟩
    simp [hsem, semaphorePost, semaphoreMaxCount]
  · have hmessages : (boxes' x).outgoing.messages = (s.boxes x).outgoing.messages := by
      funext t
      exact hback.outgoing x t fun hne => hxb hne.1
    have hphase : setPhase phase b slot
        (.busy token call (.done ((s.boxes c).incoming.messages cs).result)) x = phase x := by
      funext t
      exact setPhase_of_ne _ fun hne => hxb hne.1
    rw [hphase]
    exact callerFits_congr hcaller hheader hmessages (hback.resultCounter x)

/-- Collecting a result unties its message and its call, and leaves the others
tied. -/
theorem flights_returned (h : Inv sys s d phase) {b slot token : ℕ} {call : Call}
    (hc : c < sys.boxCount) (hl : Live sys s.boxes phase b slot token call (.sent c cs))
    (hx : s.executions b token = [executionOf sys call ((s.boxes c).incoming.messages cs).result])
    (hq : (d c).incoming .done = cs :: rest)
    (hback : HandedBack c cs b slot s.boxes boxes') :
    Flights sys boxes' s.handlers s.executions (returning d c cs rest)
      (setPhase phase b slot
        (.busy token call (.done ((s.boxes c).incoming.messages cs).result))) := by
  have hheader : ∀ x, header (boxes' x).outgoing.queues = header (s.boxes x).outgoing.queues :=
    fun x => by rw [hback.queues]
  refine ⟨fun x t token' call' stage' hl' hu => ?_, fun x t token' call' stage' v hl' hv => ?_,
    fun x t token' call' callee cs' hl' => ?_, fun callee hcallee cs' hw => ?_⟩
  · rcases live_passed hheader hl' with ⟨-, -, -, -, rfl⟩ | ⟨-, hold⟩
    · exact hu.elim
    · exact h.flights.unsent _ _ _ _ _ hold hu
  · rcases live_passed hheader hl' with ⟨rfl, -, rfl, rfl, rfl⟩ | ⟨-, hold⟩
    · cases hv
      exact hx
    · exact h.flights.value _ _ _ _ _ v hold hv
  · rcases live_passed hheader hl' with ⟨-, -, -, -, hstage⟩ | ⟨hne, hold⟩
    · cases hstage
    · have hother : ¬(callee = c ∧ cs' = cs) := by
        rintro ⟨rfl, rfl⟩
        obtain ⟨hb, hslot, -⟩ := h.transit_unique hl hold
        exact hne ⟨hb, hslot⟩
      exact (h.flights.sent _ _ _ _ _ _ hold).congr (hheader x) (hback.incoming callee cs' hother)
        (waiting_returning _) (executed_returning hq _ hother) rfl
  · have hother : ¬(callee = c ∧ cs' = cs) := by
      rintro ⟨rfl, rfl⟩
      rcases hw with hw | hw
      · exact h.sides.not_both hc ((waiting_returning _).mp hw) (.inl (hq ▸ List.mem_cons_self))
      · exact not_executed_returning h.sides hc hq hw
    rw [waiting_returning, executed_returning hq _ hother] at hw
    obtain ⟨x, t, token', call', hold⟩ := h.flights.origin callee hcallee cs' hw
    have hne : ¬(x = b ∧ t = slot) := by
      rintro ⟨rfl, rfl⟩
      have hphase := hl.2.2.symm.trans hold.2.2
      cases hphase
      exact hother ⟨rfl, rfl⟩
    exact ⟨x, t, token', call', (live_congr (hheader x)).mpr (live_setPhase_of_ne _ hold hne)⟩

/-- A pass of drain_result_queue keeps the invariant. -/
theorem inv_results (h : Inv sys s d phase) {locks : Locks} {s' : State}
    (hmonitor : s.monitor = .results c) (hs : stepResults sys s c locks = some s') :
    ∃ d' phase', Inv sys s' d' phase' := by
  have hc := h.monitor
  rw [hmonitor] at hc
  change c < sys.boxCount at hc
  unfold stepResults at hs
  by_cases hidle : locks.incoming c = true ∨ (d c).incoming .done = []
  · obtain ⟨hbody, hwrite⟩ := drainResultBody_set_idle h.sides.describes hc hidle s.accounts
    simp only [hbody, hwrite, Option.toList_none, List.nil_append] at hs
    cases hs
    exact ⟨d, phase, inv_unlocked h trivial⟩
  · rw [not_or, Bool.not_eq_true] at hidle
    obtain ⟨cs, rest, hq⟩ := List.exists_cons_of_ne_nil hidle.2
    obtain ⟨b, slot, token, call, hl, ht, hx⟩ := executed_head h hc hq
    have hfits := h.sides.slot hl
    have hslot : uvisorResultSlot ((s.boxes c).incoming.messages cs).matchCookie = slot := by
      rw [ht.cookie]
      exact uvisorResultSlot_of_mod hfits.2.2.1 (slot_lt (h.sides.describes b hl.1) hl.2.1)
    have hacc := acceptsResult_sent h hl ht
    obtain ⟨boxes', hbody, hd, hback⟩ := drainResultBody_set_accepts h.sides.describes hc hidle.1 hq
      hl.1 ht.caller hslot hacc
    have hwrite := resultWrite_set_accepts h.sides.describes hc hidle.1 hq ht.caller hslot hacc
      s.accounts
    have hstate := (h.sides.describes b hl.1).outgoing.held_state slot hl.2.1 hfits.1
      fun _ => hfits.2.2.2.2.2.1
    simp only [hbody, hwrite, Option.toList_some, List.singleton_append] at hs
    cases hs
    have hinv : Inv sys {s with
        boxes := boxes'
        writes := ⟨b, slot, ((s.boxes c).incoming.messages cs).matchCookie,
          (s.accounts b).occupant slot,
          decide ((s.boxes b).outgoing.queues.pool.prev slot = slotIsFree)⟩ :: s.writes}
        (returning d c cs rest) (setPhase phase b slot
          (.busy token call (.done ((s.boxes c).incoming.messages cs).result))) := by
      have hsides := sides_returned h.sides hl hq hd hback
      refine ⟨⟨hsides.describes, hsides.callers, hsides.handlers⟩,
        flights_returned h hc hl hx hq hback, ⟨h.history.executed_once, h.history.executed, h.history.returned, fun w hw => ?_⟩,
        h.monitor.congr fun x => by rw [hback.queues]⟩
      rcases List.mem_cons.mp hw with rfl | hw
      · rw [ht.cookie]
        have hheld : slotIsDequeued ≠ slotIsFree := by decide
        exact ⟨hfits.2.1, by simp [hstate, hheld]⟩
      · exact h.history.written w hw
    have hgoes : MonitorFits sys boxes' s.monitor := by
      rw [hmonitor]
      exact hc
    exact ⟨_, _, inv_unlocked hinv hgoes⟩

end Results

/-! ## Runs -/

section Runs

variable {sys : Platform} {s s' : State} {d : ℕ → BoxLists} {phase : ℕ → ℕ → Phase}

/-- A step of the monitor keeps the invariant. -/
theorem inv_monitor (h : Inv sys s d phase) {next : MonitorStep}
    (hs : stepMonitor sys s s.monitor next = some s') : ∃ d' phase', Inv sys s' d' phase' := by
  have hgoes : ∀ monitor, MonitorFits sys s.boxes monitor →
      Inv sys {s with monitor := monitor} d phase := fun monitor hfits =>
    ⟨⟨h.sides.describes, h.sides.callers, h.sides.handlers⟩, h.flights, h.history, hfits⟩
  cases hmonitor : s.monitor with
  | idle =>
    rw [hmonitor] at hs
    cases next with
    | drainMessages b =>
      simp only [stepMonitor] at hs
      split at hs
      · rename_i hvalid
        cases hs
        exact ⟨d, phase, hgoes _ hvalid⟩
      · cases hs
    | drainResults b =>
      simp only [stepMonitor] at hs
      split at hs
      · rename_i hvalid
        cases hs
        exact ⟨d, phase, hgoes _ hvalid.1⟩
      · cases hs
    | pass locks => cases hs
  | messages b firstSlot =>
    rw [hmonitor] at hs
    cases next with
    | pass locks => exact inv_messages h hmonitor hs
    | _ => cases hs
  | results b =>
    rw [hmonitor] at hs
    cases next with
    | pass locks => exact inv_results h hmonitor hs
    | _ => cases hs

/-- The counts of sends only grow. -/
theorem note_sends (account : Account) (rpc : BoxRpc) (pc pc' : CallerPc) :
    account.sends ≤ (account.note rpc pc pc').sends := by
  unfold Account.note
  split <;> simp

theorem stepMonitor_accounts {monitor : Monitor} {next : MonitorStep}
    (hs : stepMonitor sys s monitor next = some s') : s'.accounts = s.accounts := by
  unfold stepMonitor at hs
  split at hs
  · dsimp only at hs
    split at hs <;> cases hs
    rfl
  · dsimp only at hs
    split at hs <;> cases hs
    rfl
  · unfold stepMessages at hs
    split at hs <;> cases hs <;> rfl
  · unfold stepResults at hs
    dsimp only at hs
    split at hs <;> cases hs <;> rfl
  · cases hs

theorem step_sends {a : Action} (hs : step sys s a = some s') (b : ℕ) :
    (s.accounts b).sends ≤ (s'.accounts b).sends := by
  cases a with
  | caller c t next =>
    simp only [step] at hs
    split at hs
    · obtain ⟨out, -, rfl⟩ := Option.map_eq_some_iff.mp hs
      by_cases hb : b = c
      · subst hb
        simpa using note_sends _ _ _ _
      · simp [hb]
    · cases hs
  | handler c next =>
    simp only [step] at hs
    split at hs
    · obtain ⟨out, -, rfl⟩ := Option.map_eq_some_iff.mp hs
      exact le_rfl
    · cases hs
  | monitor next => rw [stepMonitor_accounts hs]

/-- Every step of the system keeps the invariant while the counters have not
wrapped. -/
theorem inv_step (h : Inv sys s d phase) {a : Action} (ha : Honest s a)
    (hs : step sys s a = some s') (hsends : ∀ b < sys.boxCount, (s'.accounts b).sends < 2^21) :
    ∃ d' phase', Inv sys s' d' phase' := by
  cases a with
  | caller b t next =>
    simp only [step] at hs
    split at hs
    · rename_i hb
      exact h.caller hb hs ha (hsends b hb)
    · cases hs
  | handler c next =>
    simp only [step] at hs
    split at hs
    · rename_i hc
      exact h.handler hc hs
    · cases hs
  | monitor next => exact inv_monitor h hs

/-- All slots of a freshly initialized box are free. -/
theorem callerFits_initial {rpc : BoxRpc} {layout : Layout} {callers : ℕ → CallerPc}
    (hcounter : rpc.resultCounter = 0) (hcallers : ∀ t, callers t = .idle) :
    CallerFits (uvisorInitializeRpcQueues layout rpc) initialLists.outFree initialLists.out
      (fun _ => .free) callers Account.empty := by
  refine ⟨fun slot hslot => ?_, fun t => ?_, fun t t' slot ht => ?_, fun token ht => ?_, ?_⟩
  · have hlt : slot < outgoingMessageSlots := hslot
    exact ⟨List.mem_range.mpr hlt, by simp [uvisorInitializeRpcQueues, hlt, semaphoreInitCount]⟩
  · rw [hcallers t]
    trivial
  · rw [hcallers t] at ht
    cases ht
  · cases ht
  · refine ⟨?_, fun _ _ => ⟨rfl, rfl, List.not_mem_nil⟩, fun _ => Nat.zero_le _,
      fun _ => Nat.zero_le _⟩
    change rpc.resultCounter = wrap (0*resultCounterIncrement)
    rw [hcounter, Nat.zero_mul]
    rfl

/-- The invariant holds at the start. -/
theorem inv_initial (h : Initial sys s) :
    Inv sys s (fun _ => initialLists) (fun _ _ => .free) := by
  have hnone : ∀ b slot token call stage,
      ¬Live sys s.boxes (fun _ _ => .free) b slot token call stage :=
    fun b slot token call stage hl => by cases hl.2.2
  refine ⟨⟨fun b hb => ?_, fun b hb => ?_, fun b hb => ?_⟩,
    ⟨fun _ _ _ _ _ hl => absurd hl (hnone _ _ _ _ _),
      fun _ _ _ _ _ _ hl => absurd hl (hnone _ _ _ _ _),
      fun _ _ _ _ _ _ hl => absurd hl (hnone _ _ _ _ _), fun c hc cs hw => ?_⟩,
    ⟨fun b token => ?_, fun b token execution hx => ?_, fun b hb token value hv => ?_,
      fun w hw => ?_⟩, ?_⟩
  · obtain ⟨layout, rpc, hbox, -⟩ := h.boxes b hb
    rw [hbox]
    exact initialize_describes layout rpc
  · obtain ⟨layout, rpc, hbox, hcounter⟩ := h.boxes b hb
    rw [hbox, h.accounts b]
    exact callerFits_initial hcounter (h.callers b)
  · refine ⟨fun group slot first hpc => ?_, fun slot hpc => ?_, fun group hpc => ?_⟩ <;>
      rw [h.handlers b] at hpc <;> cases hpc
  · rw [h.handlers c] at hw
    simp [Waiting, Executed, initialLists] at hw
  · simp [h.executions b token]
  · simp [h.executions b token] at hx
  · rw [h.accounts b] at hv
    cases hv
  · rw [h.writes] at hw
    cases hw
  · rw [h.monitor]
    trivial

/-- The invariant holds in every run while the counters have not wrapped. -/
theorem inv_reachable (h : Reachable (Initial sys) (step sys) Honest s) :
    (∀ b < sys.boxCount, (s.accounts b).sends < 2^21) → ∃ d phase, Inv sys s d phase := by
  refine h.invariant
    (fun s => (∀ b < sys.boxCount, (s.accounts b).sends < 2^21) → ∃ d phase, Inv sys s d phase)
    (fun s hs _ => ⟨_, _, inv_initial hs⟩) fun s a t hinv ha hs hsends => ?_
  obtain ⟨d, phase, hinv⟩ := hinv fun b hb => (step_sends hs b).trans_lt (hsends b hb)
  exact inv_step hinv ha hs hsends

/-- In every run of honest boxes with fewer than 2^21 sends each, every
completed call returns the value of the one execution of its own target on its
own arguments in its callee box, no target is executed twice for a call, and no
result is copied into a slot that has been freed or is used for another call. -/
theorem calls_have_integrity (h : Reachable (Initial sys) (step sys) Honest s)
    (hsends : ∀ b < sys.boxCount, (s.accounts b).sends < 2^21) : Integrity sys s := by
  obtain ⟨d, phase, hinv⟩ := inv_reachable h hsends
  refine ⟨fun b hb token => ?_, hinv.history.executed_once, hinv.history.executed,
    fun b hb token => ?_, hinv.history.returned, hinv.history.written⟩
  · exact (CallerBox.ledger (hinv.sides.callers b hb)).issued token
  · exact (CallerBox.ledger (hinv.sides.callers b hb)).returned token

end Runs

/-! ## One call -/

/-- The small system before anything has happened. -/
def bootedState : State :=
  ⟨bootedBoxes, fun _ _ => .idle, fun _ => .idle, .idle, fun _ => Account.empty, fun _ _ => [], []⟩

theorem bootedState_initial : Initial threeBoxes bootedState :=
  ⟨fun b _ => ⟨smallLayout b, zeroBox, rfl, rfl⟩, fun _ _ => rfl, fun _ => rfl, rfl, fun _ => rfl,
    fun _ _ => rfl, rfl⟩

/-- A call of box 0. -/
def sampleCall : Call := ⟨1, 2, 3, 4, 0x2000⟩

/-- No thread holds a lock. -/
def noLocks : Locks := ⟨fun _ => false, fun _ => false⟩

/-- A synchronous call from box 0 to box 1, from its claim to its return. -/
def wholeCall : List Action :=
  [.caller 0 0 (.claim sampleCall true), .caller 0 0 .count, .caller 0 0 .fill,
    .caller 0 0 .enqueue, .monitor (.drainMessages 0), .monitor (.pass noLocks),
    .monitor (.pass noLocks), .caller 0 0 .readToken, .handler 1 (.lookup 0x5000 1),
    .handler 1 .claim, .handler 1 .publish, .handler 1 .find, .handler 1 .dequeue,
    .handler 1 (.dispatch 7), .handler 1 .finish, .monitor (.drainResults 1),
    .monitor (.pass noLocks), .monitor (.pass noLocks), .caller 0 0 .pend,
    .caller 0 0 .readResult, .caller 0 0 .free]

/-- The call returns what the one execution of its target has returned. -/
theorem calls_have_integrity_wholeCall :
    ∃ s : State, (s.accounts 0).returned 0x800 = [7] ∧ Integrity threeBoxes s := by
  have hrun : ((execWithin (step threeBoxes) Honest wholeCall bootedState).map fun s =>
      ((s.accounts 0).returned 0x800,
        (s.accounts 0).sends, (s.accounts 1).sends, (s.accounts 2).sends)) =
      some ([7], 1, 0, 0) := by decide +kernel
  rw [Option.map_eq_some_iff] at hrun
  obtain ⟨s, hs, hend⟩ := hrun
  obtain ⟨hreturned, hsends⟩ := Prod.mk.inj hend
  simp only [Prod.mk.injEq] at hsends
  have hreach := execWithin_reachable (Reachable.start bootedState_initial) hs
  refine ⟨s, hreturned, calls_have_integrity hreach fun b hb => ?_⟩
  change b < 3 at hb
  obtain rfl | rfl | rfl : b = 0 ∨ b = 1 ∨ b = 2 := by omega
  · exact hsends.1.trans_lt (by decide)
  · exact hsends.2.1.trans_lt (by decide)
  · exact hsends.2.2.trans_lt (by decide)

end Uvisor.RpcEndToEnd
